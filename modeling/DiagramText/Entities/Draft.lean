import DiagramText.Diagram.Graph
import DiagramText.Entities.Statement

/-! An entity-relationship diagram while its lines are read: the graph so far, and the entity whose
block is open. Lines go to that block up to the first closing brace. -/
namespace DiagramText.Entities

def attributesKey : String := "attributes"
def leftKey : String := "left_cardinality"
def rightKey : String := "right_cardinality"

structure Draft where
  graph : Graph
  openEntity : Option String
deriving DecidableEq, Repr

namespace Draft

def empty : Draft := ⟨.empty, none⟩

/-- Entities stand on a grid with rows of three. -/
def newEntity (now : Instant) (name : String) (index : Nat) : Element :=
  let e := (Element.node now name name).setProperty Element.typeKey (.str "entity")
  let e := e.setProperty Element.shapeKey (.str "rectangle")
  let e := e.setProperty attributesKey (.arr [])
  e.moveTo (.ofNat (250 * (index % 3)) (200 * (index / 3)))

def ensure (now : Instant) (g : Graph) (name : String) : Graph :=
  g.ensure name (newEntity now name)

def addAttributes (g : Graph) (name : String) (attributes : List Attribute) : Graph :=
  attributes.foldl (fun g a => g.appendTo name attributesKey a.toJson) g

/-- A line of a block; one that cannot be read adds nothing. -/
def addLine (g : Graph) (name : String) (line : List Char) : Graph :=
  addAttributes g name ((attributes? line).getD [])

def apply (now : Instant) (g : Graph) : Statement → Draft
  | .entity name attributes opensBlock =>
    ⟨addAttributes (ensure now g name) name attributes, if opensBlock then some name else none⟩
  | .relationship left right leftCardinality rightCardinality line label =>
    let g := ensure now (ensure now g left) right
    ⟨g.connect now left right line.key label
      [(leftKey, .str leftCardinality.key), (rightKey, .str rightCardinality.key)], none⟩

/-- What is no statement is passed over. -/
def readLine (now : Instant) (d : Draft) (line : String) : Draft :=
  let cs := Text.trim line.toList
  match d.openEntity with
  | some name =>
    match Text.cut? '\x7d' cs with
    | some (last, _) => ⟨addLine d.graph name last, none⟩
    | none => ⟨addLine d.graph name cs, some name⟩
  | none =>
    match Statement.ofText? cs with
    | some s => apply now d.graph s
    | none => d

end Draft

/-- The graph that the lines of an entity-relationship diagram describe. -/
def read (now : Instant) (lines : List String) : Graph :=
  (lines.foldl (Draft.readLine now) .empty).graph

end DiagramText.Entities
