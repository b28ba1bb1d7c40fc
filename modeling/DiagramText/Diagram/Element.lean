import DiagramText.Diagram.Kinds
import DiagramText.Instant
import DiagramText.Json.Basic

/-! Elements and the connections between them. -/
namespace DiagramText

structure Position where
  x : Binary64
  y : Binary64
deriving DecidableEq, Repr, Inhabited

structure Size where
  width : Binary64
  height : Binary64
deriving DecidableEq, Repr, Inhabited

def Position.ofNat (x y : Nat) : Position := ⟨.ofNat x, .ofNat y⟩

/-- The size of an element that nobody has resized. -/
def Size.usual : Size := ⟨.ofNat 120, .ofNat 60⟩

/-- A node, container or note. -/
structure Element where
  id : String
  kind : ElementKind
  label : String
  position : Position
  size : Size
  properties : Table Json
  style : Table Json
  createdAt : Instant
  updatedAt : Instant
deriving DecidableEq, Repr

namespace Element

/-- The key of a node's shape. -/
def shapeKey : String := "shape"
/-- The key of what an element is in its dialect. -/
def typeKey : String := "type"
/-- The key of the ids that a container lists. -/
def childrenKey : String := "children"

def create (now : Instant) (id : String) (kind : ElementKind) (label : String) : Element where
  id := id
  kind := kind
  label := label
  position := .ofNat 0 0
  size := .usual
  properties := ∅
  style := ∅
  createdAt := now
  updatedAt := now

def node (now : Instant) (id label : String) : Element := create now id .node label

def setProperty (e : Element) (key : String) (v : Json) : Element :=
  { e with properties := e.properties.insert key v }

def setStyle (e : Element) (key : String) (v : Json) : Element :=
  { e with style := e.style.insert key v }

def moveTo (e : Element) (p : Position) : Element := { e with position := p }

/-- A property that is a string. -/
def property? (e : Element) (key : String) : Option String :=
  (e.properties.get? key).bind Json.string?

def shape? (e : Element) : Option String := e.property? shapeKey
def type? (e : Element) : Option String := e.property? typeKey

/-- The strings of a list property; of any other property none. -/
def listed (e : Element) (key : String) : List String :=
  ((e.properties.get? key).map Json.strings).getD []

/-- Adds to a list property; what is there and no list is replaced. -/
def append (e : Element) (key : String) (v : Json) : Element :=
  match e.properties.get? key with
  | some (.arr items) => e.setProperty key (.arr (items ++ [v]))
  | _ => e.setProperty key (.arr [v])

end Element

/-- A connection from one element to another, by their ids. -/
structure Connection where
  id : String
  source : String
  target : String
  label : String
  kind : String
  style : Table Json
  properties : Table Json
  points : List Position
  createdAt : Instant
  updatedAt : Instant
deriving DecidableEq, Repr

namespace Connection

def create (now : Instant) (id source target kind : String) : Connection where
  id := id
  source := source
  target := target
  label := ""
  kind := kind
  style := ∅
  properties := ∅
  points := []
  createdAt := now
  updatedAt := now

def setProperty (c : Connection) (key : String) (v : Json) : Connection :=
  { c with properties := c.properties.insert key v }

def property? (c : Connection) (key : String) : Option String :=
  (c.properties.get? key).bind Json.string?

/-- Whether an element is at either end. -/
def touches (c : Connection) (id : String) : Bool := c.source = id || c.target = id

/-- Blanks alone are no label. -/
def hasLabel (c : Connection) : Bool := !Text.isBlankText c.label

end Connection
end DiagramText
