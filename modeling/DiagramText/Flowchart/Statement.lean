import DiagramText.Diagram.Kinds
import DiagramText.Flowchart.Shape
import DiagramText.Text.Split

/-! Statements of flowchart source and their grammar. Alternatives are tried in order, and a
statement is one only if nothing is left over. -/
namespace DiagramText.Flowchart

/-- A mention of a node, with the label in the brackets of its shape and the name of its class. -/
structure NodeRef where
  id : String
  body : Option (String × Shape)
  styleClass : Option String
deriving DecidableEq, Repr

/-- One hop of a chain of edges. -/
structure Link where
  arrow : Arrow
  label : Option String
  target : NodeRef
deriving DecidableEq, Repr

inductive Statement where
  | chain (head : NodeRef) (links : List Link)
  | node (ref : NodeRef)
  | subgraph (id label : String)
  | close
  | style (ids : List String) (declarations : List (String × String))
  | direction (d : Direction)
deriving DecidableEq, Repr

/-- Characters that no bare label has. -/
def endsLabel (c : Char) : Bool :=
  ['[', ']', '(', ')', '\x7b', '\x7d', '|', '"', '\n', '\r', '\t'].contains c

/-- Between slanted brackets a bare label has no slashes either. -/
def endsSlantedLabel (c : Char) : Bool := endsLabel c || c == '/' || c == '\\'

/-- A quoted label, or bare text without the characters of the class. -/
def label (ends : Char → Bool) : Reader String :=
  Reader.quoted <|> do
    let cs ← Reader.run1 fun c => !ends c
    pure (String.ofList (Text.trim cs))

def shaped (s : Shape) : Reader (String × Shape) := do
  Reader.token s.opening
  let text ← label (if s.isSlanted then endsSlantedLabel else endsLabel)
  Reader.token s.closing
  pure (text, s)

def nodeRef : Reader NodeRef := do
  let id ← Reader.identifier
  let body ← optional (Reader.firstOf (Shape.all.map shaped))
  let styleClass ← optional (Reader.token ":::" *> Reader.identifier)
  pure { id, body, styleClass }

/-- The label between bars; a quoted one, or any text without a bar. -/
def edgeLabel : Reader String := do
  Reader.token "|"
  let text ← Reader.quoted <|> (String.ofList <$> Reader.run1 (· != '|'))
  Reader.token "|"
  pure (Text.trimmed text)

def link : Reader Link := do
  Reader.inlineBlanks
  let arrow ← Arrow.reader
  Reader.inlineBlanks
  let text ← optional (edgeLabel <* Reader.inlineBlanks)
  let target ← nodeRef
  pure { arrow, label := text.bind Reader.nonEmpty, target }

/-- An id with a label in square brackets. -/
def titledGroup : Reader (String × String) := do
  let id ← Reader.identifier
  Reader.inlineBlanks
  Reader.token "["
  let text ← label endsLabel
  Reader.token "]"
  pure (id, text)

def stripQuotes (cs : List Char) : List Char :=
  ((cs.dropWhile (· == '"')).reverse.dropWhile (· == '"')).reverse

/-- The id and label of a subgraph. Free text is a label, and with an underscore for whatever is
no letter or digit it is the id as well. -/
def groupHeader (cs : List Char) : String × String :=
  if cs = [] then ("", "")
  else match titledGroup.whole? cs with
    | some header => header
    | none =>
      match Reader.identifier.whole? cs with
      | some id => (id, id)
      | none =>
        let title := stripQuotes cs
        (String.ofList (title.map fun c => if Text.isAlphanumeric c then c else '_'),
          String.ofList title)

def subgraph : Reader Statement := do
  Reader.token "subgraph"
  let header ← optional (Reader.inlineBlanks1 *> Reader.rest)
  Reader.atEnd
  let (id, text) := groupHeader (Text.trim (header.getD []))
  pure (.subgraph id text)

/-- A key and a value with a colon between; both are there or it is no declaration. -/
def declaration? (cs : List Char) : Option (String × String) := do
  let (key, value) ← Text.cut? ':' cs
  let key ← Reader.nonEmpty (String.ofList (Text.trim key))
  let value ← Reader.nonEmpty (String.ofList (Text.trim value))
  pure (key, value)

def declarations (cs : List Char) : List (String × String) :=
  (Text.pieces ',' cs).filterMap declaration?

def style : Reader Statement := do
  Reader.token "style"
  Reader.inlineBlanks1
  let ids ← Reader.sepBy1 Reader.identifier (Reader.token ",")
  Reader.inlineBlanks1
  let text ← Reader.rest
  pure (.style ids (declarations text))

def directionLine : Reader Statement := do
  Reader.token "direction"
  Reader.inlineBlanks1
  let d ← Reader.oneOf Direction.names
  Reader.atEnd
  pure (.direction d)

def chain : Reader Statement := do
  let head ← nodeRef
  let links ← Reader.many1 link
  Reader.atEnd
  pure (.chain head links)

def statement : Reader Statement := Reader.firstOf [
  subgraph,
  Reader.token "end" *> Reader.atEnd *> pure .close,
  style,
  directionLine,
  chain,
  do let ref ← nodeRef; Reader.atEnd; pure (.node ref)]

/-- The statement that a text is, blanks at its ends aside. -/
def Statement.ofText? (cs : List Char) : Option Statement := statement.whole? (Text.trim cs)

/-- The statements on a line are separated by semicolons outside quotes. -/
def statementTexts (line : List Char) : List (List Char) :=
  ((Text.unquotedPieces ';' false line).map Text.trim).filter (· != [])

end DiagramText.Flowchart
