import DiagramText.Reader
import DiagramText.Text.Split

/-! Statements of class diagrams: classes, stereotypes, members, and relations between classes. -/
namespace DiagramText.Classes

inductive Relation where
  | inheritance
  | realization
  | composition
  | aggregation
  | dependency
  | association
  | link
  | dashedLink
deriving DecidableEq, Repr, Inhabited

namespace Relation

def all : List Relation := [.inheritance, .realization, .composition, .aggregation, .dependency,
  .association, .link, .dashedLink]

/-- The token that points from source to target. -/
def token : Relation → String
  | .inheritance => "--|>"
  | .realization => "..|>"
  | .composition => "--*"
  | .aggregation => "--o"
  | .dependency => "..>"
  | .association => "-->"
  | .link => "--"
  | .dashedLink => ".."

/-- The kind of connection that a relation is. -/
def key : Relation → String
  | .inheritance => "inheritance"
  | .realization => "realization"
  | .composition => "composition"
  | .aggregation => "aggregation"
  | .dependency => "dependency"
  | .association => "association"
  | .link => "link"
  | .dashedLink => "dashed_link"

/-- The token that points from target to source; the plain lines have none. -/
def reversedToken? : Relation → Option String
  | .inheritance => some "<|--"
  | .realization => some "<|.."
  | .composition => some "*--"
  | .aggregation => some "o--"
  | .dependency => some "<.."
  | .association => some "<--"
  | .link => none
  | .dashedLink => none

def ofKey? (key : String) : Option Relation := all.find? fun r => r.key = key

/-- Connections of an unknown kind are drawn as associations. -/
def ofKey (key : String) : Relation := (ofKey? key).getD .association

end Relation

/-- A relation as it is pointed: from left to right, or reversed. -/
structure Pointing where
  relation : Relation
  reversed : Bool
deriving DecidableEq, Repr

/-- Every token, the reversed ones first; a token comes before those that start it. -/
def pointings : List (String × Pointing) :=
  Relation.all.filterMap (fun r => r.reversedToken?.map (·, ⟨r, true⟩)) ++
    Relation.all.map fun r => (r.token, ⟨r, false⟩)

/-- What a line in the body of a class says. -/
inductive Member where
  | attribute (text : String)
  | method (text : String)
  | stereotype (text : String)
deriving DecidableEq, Repr

/-- The text between a start and an end that do not overlap. -/
def between? (start stop : List Char) (cs : List Char) : Option (List Char) := do
  let rest ← start.isPrefixOf? cs
  let inner ← stop.reverse.isPrefixOf? rest.reverse
  pure inner.reverse

/-- Text in double angle brackets is a stereotype; any other with an opening parenthesis is a
method. -/
def Member.ofText? (cs : List Char) : Option Member :=
  let text := Text.trim cs
  if text = [] then none
  else match between? ['<', '<'] ['>', '>'] text with
    | some inner => some (.stereotype (String.ofList (Text.trim inner)))
    | none =>
      if text.contains '(' then some (.method (String.ofList text))
      else some (.attribute (String.ofList text))

inductive Statement where
  | declare (name : String) (label : Option String) (body : Option String)
  | stereotype (name text : String)
  | member (name member : String)
  | relation (source target : String) (kind : Relation)
      (sourceCardinality targetCardinality : Option String) (label : Option String)
deriving DecidableEq, Repr

def bracketed : Reader String := Reader.token "[" *> Reader.quoted <* Reader.token "]"

def openBody : Reader String :=
  Reader.inlineBlanks *> Reader.token "\x7b" *> (String.ofList <$> Reader.rest)

def declare : Reader Statement := do
  Reader.token "class"
  Reader.inlineBlanks1
  let name ← Reader.identifier
  let label ← optional bracketed
  let body ← optional openBody
  Reader.inlineBlanks
  Reader.atEnd
  pure (.declare name label body)

def stereotype : Reader Statement := do
  Reader.token "<<"
  let text ← Reader.run1 (· != '>')
  Reader.token ">>"
  Reader.inlineBlanks
  let name ← Reader.identifier
  Reader.atEnd
  pure (.stereotype name (String.ofList (Text.trim text)))

def cardinality : Reader (Option String) := optional (Reader.quoted <* Reader.inlineBlanks)

/-- A reversed token has its source on the right. -/
def relation : Reader Statement := do
  let left ← Reader.identifier
  Reader.inlineBlanks
  let leftCardinality ← cardinality
  let pointing ← Reader.oneOf pointings
  Reader.inlineBlanks
  let rightCardinality ← cardinality
  let right ← Reader.identifier
  let label ← Reader.colonLabel
  Reader.atEnd
  if pointing.reversed then
    pure (.relation right left pointing.relation rightCardinality leftCardinality label)
  else pure (.relation left right pointing.relation leftCardinality rightCardinality label)

def member : Reader Statement := do
  let name ← Reader.identifier
  Reader.inlineBlanks
  Reader.token ":"
  let text ← Reader.restTrimmed
  pure (.member name text)

def statement : Reader Statement := Reader.firstOf [declare, stereotype, relation, member]

/-- The statement that a line is, blanks at its ends aside. -/
def Statement.ofText? (cs : List Char) : Option Statement := statement.whole? (Text.trim cs)

end DiagramText.Classes
