import DiagramText.Diagram.Element

/-! Graphs: elements and connections under their ids, in the order in which they came. -/
namespace DiagramText

structure Graph where
  elements : Table Element
  connections : Table Connection
deriving DecidableEq, Repr, Inhabited

/-- The id of the `n`th connection. -/
def connectionId (n : Nat) : String := "conn_" ++ toString n

/-- The first id from `n` on that is free; among one more ids than there are keys one is free. -/
def freeIdFrom (connections : Table Connection) : Nat → Nat → String
  | 0, n => connectionId n
  | fuel + 1, n =>
    if connections.contains (connectionId n) then freeIdFrom connections fuel (n + 1)
    else connectionId n

/-- A fresh id for a connection; numbering goes on from the number of connections. -/
def nextConnectionId (connections : Table Connection) : String :=
  freeIdFrom connections connections.size (connections.size + 1)

namespace Graph

def empty : Graph := ⟨∅, ∅⟩

def hasElement (g : Graph) (id : String) : Bool := g.elements.contains id
def element? (g : Graph) (id : String) : Option Element := g.elements.get? id

/-- Adds an element; an id that is taken keeps its element. -/
def addElement (g : Graph) (e : Element) : Graph :=
  if g.hasElement e.id then g else { g with elements := g.elements.insert e.id e }

/-- Makes sure that there is an element; `make` is given the number of those before it. -/
def ensure (g : Graph) (id : String) (make : Nat → Element) : Graph :=
  if g.hasElement id then g else { g with elements := g.elements.insert id (make g.elements.size) }

def modifyElement (g : Graph) (id : String) (f : Element → Element) : Graph :=
  { g with elements := g.elements.modify id f }

/-- Adds a value to a list property of an element. -/
def appendTo (g : Graph) (id key : String) (v : Json) : Graph :=
  g.modifyElement id fun e => e.append key v

/-- Adds a connection under the next free id. -/
def connect (g : Graph) (now : Instant) (source target kind label : String)
    (properties : List (String × Json) := []) : Graph :=
  let id := nextConnectionId g.connections
  let c := { Connection.create now id source target kind with
    label := label, properties := Table.ofList properties }
  { g with connections := g.connections.insert id c }

def connectionsFor (g : Graph) (id : String) : List Connection :=
  g.connections.values.filter (·.touches id)

/-- Both ends are there. -/
def joins (g : Graph) (c : Connection) : Bool := g.hasElement c.source && g.hasElement c.target

/-- The ids of the connections that miss an end. -/
def dangling (g : Graph) : List String :=
  (g.connections.values.filter fun c => !g.joins c).map (·.id)

end Graph
end DiagramText
