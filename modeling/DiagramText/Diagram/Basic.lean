import DiagramText.Diagram.Graph

/-! Diagrams: a graph in a dialect, with what is known about it as a whole. -/
namespace DiagramText

structure Metadata where
  title : Option String
  description : Option String
  direction : Option Direction
  elementCount : Nat
  connectionCount : Nat
  createdAt : Instant
  updatedAt : Instant
deriving DecidableEq, Repr

def Metadata.create (now : Instant) : Metadata where
  title := none
  description := none
  direction := none
  elementCount := 0
  connectionCount := 0
  createdAt := now
  updatedAt := now

structure Diagram extends Graph where
  dialect : Dialect
  metadata : Metadata
deriving DecidableEq, Repr

namespace Diagram

def create (now : Instant) (dialect : Dialect) : Diagram where
  toGraph := .empty
  dialect := dialect
  metadata := .create now

/-- Brings the counts in line with the graph. -/
def recount (d : Diagram) : Diagram :=
  { d with metadata := { d.metadata with
      elementCount := d.elements.size, connectionCount := d.connections.size } }

/-- Brings the counts in line with the graph and notes the time of the change. -/
def touch (now : Instant) (d : Diagram) : Diagram :=
  let r := d.recount
  { r with metadata := { r.metadata with updatedAt := now } }

def ofGraph (dialect : Dialect) (g : Graph) (m : Metadata) : Diagram :=
  recount { toGraph := g, dialect := dialect, metadata := m }

def clear (now : Instant) (d : Diagram) : Diagram := touch now { d with toGraph := .empty }

end Diagram
end DiagramText
