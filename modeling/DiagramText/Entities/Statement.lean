import DiagramText.Json.Basic
import DiagramText.Reader
import DiagramText.Text.Split

/-! Statements of entity-relationship diagrams: entities with their attributes, and relationships
with a cardinality at either end. -/
namespace DiagramText.Entities

inductive Cardinality where
  | zeroOrOne
  | exactlyOne
  | zeroOrMore
  | oneOrMore
deriving DecidableEq, Repr, Inhabited

namespace Cardinality

def all : List Cardinality := [.zeroOrOne, .exactlyOne, .zeroOrMore, .oneOrMore]

def key : Cardinality → String
  | .zeroOrOne => "zero_or_one"
  | .exactlyOne => "exactly_one"
  | .zeroOrMore => "zero_or_more"
  | .oneOrMore => "one_or_more"

/-- The marker at the left end of a line. -/
def leftMarker : Cardinality → String
  | .zeroOrOne => "|o"
  | .exactlyOne => "||"
  | .zeroOrMore => "\x7do"
  | .oneOrMore => "\x7d|"

/-- The marker at the right end of a line. -/
def rightMarker : Cardinality → String
  | .zeroOrOne => "o|"
  | .exactlyOne => "||"
  | .zeroOrMore => "o\x7b"
  | .oneOrMore => "|\x7b"

/-- What is no cardinality counts as exactly one. -/
def ofKey (key : String) : Cardinality := (all.find? fun c => c.key = key).getD .exactlyOne

def leftReader : Reader Cardinality := Reader.oneOf (all.map fun c => (c.leftMarker, c))
def rightReader : Reader Cardinality := Reader.oneOf (all.map fun c => (c.rightMarker, c))

end Cardinality

inductive Line where
  | identifying
  | nonIdentifying
deriving DecidableEq, Repr, Inhabited

namespace Line

def all : List Line := [.identifying, .nonIdentifying]

def key : Line → String
  | .identifying => "identifying"
  | .nonIdentifying => "non_identifying"

def token : Line → String
  | .identifying => "--"
  | .nonIdentifying => ".."

/-- Connections of an unknown kind are drawn as identifying. -/
def ofKey (key : String) : Line := (all.find? fun l => l.key = key).getD .identifying

def reader : Reader Line := Reader.oneOf (all.map fun l => (l.token, l))

end Line

/-- An attribute of an entity. -/
structure Attribute where
  dataType : String
  name : String
  keys : List String
  comment : Option String
deriving DecidableEq, Repr

/-- An attribute without a comment has no field for it. -/
def Attribute.toJson (a : Attribute) : Json :=
  .obj ([("type", .str a.dataType), ("name", .str a.name), ("keys", .ofStrings a.keys)] ++
    (a.comment.map fun c => ("comment", Json.str c)).toList)

inductive Statement where
  | entity (name : String) (attributes : List Attribute) (opensBlock : Bool)
  | relationship (left right : String) (leftCardinality rightCardinality : Cardinality)
      (line : Line) (label : String)
deriving DecidableEq, Repr

/-- Words are separated by spaces, tabs and double quotes. -/
def endsWord (c : Char) : Bool := Text.isInlineBlank c || c == '"'

def word : Reader String := String.ofList <$> Reader.run1 fun c => !endsWord c

def keyNames : List String := ["PK", "FK", "UK"]

def comma : Reader Unit := Reader.inlineBlanks *> Reader.token "," *> Reader.inlineBlanks

def keys : Reader (List String) :=
  Reader.sepBy1 (Reader.oneOf (keyNames.map fun k => (k, k))) comma

/-- A type and a name, then keys and a comment where they are there. -/
def attributeReader : Reader Attribute := do
  let dataType ← word
  Reader.inlineBlanks1
  let name ← word
  let keys ← optional (Reader.inlineBlanks1 *> keys)
  let comment ← optional (Reader.inlineBlanks1 *> Reader.quoted)
  pure { dataType, name, keys := keys.getD [], comment }

def Attribute.ofText? (cs : List Char) : Option Attribute :=
  (attributeReader <* Reader.inlineBlanks : Reader Attribute).whole? (Text.trim cs)

/-- Attributes one after the other; one that cannot be read spoils them all. -/
def attributes? (cs : List Char) : Option (List Attribute) :=
  (Reader.sepBy attributeReader Reader.inlineBlanks1).whole? (Text.trim cs)

def entityName : Reader String := String.ofList <$> Reader.run1 Text.isNameChar

def block : Reader (List Char) := Reader.inlineBlanks *> Reader.token "\x7b" *> Reader.rest

/-- An entity alone, with a whole block, or with one that stays open. -/
def entity : Reader Statement := do
  let name ← entityName
  let block ← optional block
  Reader.atEnd
  match block with
  | none => pure (.entity name [] false)
  | some rest =>
    match Text.cut? '\x7d' rest with
    | some (inner, _) => pure (.entity name ((attributes? inner).getD []) false)
    | none => pure (.entity name ((attributes? rest).getD []) true)

/-- A quoted label, or the rest of the line. -/
def label : Reader String := do
  Reader.inlineBlanks
  Reader.token ":"
  Reader.inlineBlanks
  let text ← Reader.quoted <|> Reader.restTrimmed
  Reader.inlineBlanks
  pure text

def relationship : Reader Statement := do
  let left ← entityName
  Reader.inlineBlanks
  let leftCardinality ← Cardinality.leftReader
  let line ← Line.reader
  let rightCardinality ← Cardinality.rightReader
  Reader.inlineBlanks
  let right ← entityName
  let text ← optional label
  Reader.atEnd
  pure (.relationship left right leftCardinality rightCardinality line (text.getD ""))

def statement : Reader Statement := Reader.firstOf [relationship, entity]

/-- The statement that a line is, blanks at its ends aside. -/
def Statement.ofText? (cs : List Char) : Option Statement := statement.whole? (Text.trim cs)

end DiagramText.Entities
