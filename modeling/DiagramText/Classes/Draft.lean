import DiagramText.Classes.Statement
import DiagramText.Diagram.Graph

/-! A class diagram while its lines are read: the graph so far, and the class whose body is open.
Lines go to that body up to the first closing brace. -/
namespace DiagramText.Classes

def attributesKey : String := "attributes"
def methodsKey : String := "methods"
def stereotypeKey : String := "annotation"
def sourceCardinalityKey : String := "source_cardinality"
def targetCardinalityKey : String := "target_cardinality"

structure Draft where
  graph : Graph
  openClass : Option String
deriving DecidableEq, Repr

namespace Draft

def empty : Draft := ⟨.empty, none⟩

/-- Classes stand on a grid with rows of four. -/
def newClass (now : Instant) (name : String) (index : Nat) : Element :=
  let e := (Element.node now name name).setProperty Element.typeKey (.str "class")
  let e := e.setProperty Element.shapeKey (.str "rectangle")
  let e := (e.setProperty attributesKey (.arr [])).setProperty methodsKey (.arr [])
  e.moveTo (.ofNat (200 * (index % 4)) (150 * (index / 4)))

def ensure (now : Instant) (g : Graph) (name : String) : Graph := g.ensure name (newClass now name)

/-- A stereotype replaces the one before; attributes and methods are added to their lists. -/
def record : Member → Element → Element
  | .attribute text, e => e.append attributesKey (.str text)
  | .method text, e => e.append methodsKey (.str text)
  | .stereotype text, e => e.setProperty stereotypeKey (.str text)

/-- A blank text is no member and makes no class. -/
def addMember (now : Instant) (g : Graph) (name : String) (text : List Char) : Graph :=
  match Member.ofText? text with
  | some m => (ensure now g name).modifyElement name (record m)
  | none => g

/-- Some of the body of a class: its members up to a closing brace, or one line of it. -/
def addBody (now : Instant) (g : Graph) (name body : String) : Draft :=
  match Text.cut? '\x7d' body.toList with
  | some (inner, _) => ⟨(Text.pieces ';' inner).foldl (addMember now · name ·) g, none⟩
  | none => ⟨addMember now g name body.toList, some name⟩

def cardinalities (source target : Option String) : List (String × Json) :=
  (source.map fun s => (sourceCardinalityKey, Json.str s)).toList ++
    (target.map fun s => (targetCardinalityKey, Json.str s)).toList

def apply (now : Instant) (g : Graph) : Statement → Draft
  | .declare name label body =>
    let g := (ensure now g name).modifyElement name fun e => { e with label := label.getD e.label }
    match body with
    | some body => addBody now g name body
    | none => ⟨g, none⟩
  | .stereotype name text =>
    ⟨(ensure now g name).modifyElement name (record (.stereotype text)), none⟩
  | .member name member => ⟨addMember now g name member.toList, none⟩
  | .relation source target kind sourceCardinality targetCardinality label =>
    let g := ensure now (ensure now g source) target
    ⟨g.connect now source target kind.key (label.getD "")
      (cardinalities sourceCardinality targetCardinality), none⟩

/-- What is no statement is passed over. -/
def readLine (now : Instant) (d : Draft) (line : String) : Draft :=
  let cs := Text.trim line.toList
  match d.openClass with
  | some name =>
    match Text.cut? '\x7d' cs with
    | some (last, _) => ⟨addMember now d.graph name last, none⟩
    | none => ⟨addMember now d.graph name cs, some name⟩
  | none =>
    match Statement.ofText? cs with
    | some s => apply now d.graph s
    | none => d

end Draft

/-- The graph that the lines of a class diagram describe. -/
def read (now : Instant) (lines : List String) : Graph :=
  (lines.foldl (Draft.readLine now) .empty).graph

end DiagramText.Classes
