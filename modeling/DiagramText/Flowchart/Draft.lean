import DiagramText.Diagram.Graph
import DiagramText.Flowchart.Statement

/-! A flowchart while its statements are read: the graph so far, and the subgraphs that are open,
the innermost first. -/
namespace DiagramText.Flowchart

structure Draft where
  graph : Graph
  groups : List String
deriving DecidableEq, Repr

namespace Draft

def empty : Draft := ⟨.empty, []⟩

/-- Nodes stand below one another. -/
def newNode (now : Instant) (id : String) (index : Nat) : Element :=
  ((Element.node now id id).setProperty Element.shapeKey (.str Shape.rectangle.key)).moveTo
    (.ofNat 0 (100 * index))

def newGroup (now : Instant) (id label : String) : Element :=
  ((Element.create now id .container label).setProperty Element.typeKey (.str "subgraph")).setProperty
    Element.childrenKey (.arr [])

/-- Lists an element in the innermost open group. -/
def enlist (d : Draft) (id : String) : Draft :=
  match d.groups with
  | [] => d
  | group :: _ => { d with graph := d.graph.appendTo group Element.childrenKey (.str id) }

/-- Label, shape and class as far as the mention gives them. -/
def describe (ref : NodeRef) (e : Element) : Element :=
  let e := match ref.body with
    | some (label, shape) => { e with label }.setProperty Element.shapeKey (.str shape.key)
    | none => e
  match ref.styleClass with
  | some name => e.setProperty "class" (.str name)
  | none => e

/-- A mention of a node makes it when it is new, and then lists it. -/
def declare (now : Instant) (d : Draft) (ref : NodeRef) : Draft :=
  let known := d.graph.hasElement ref.id
  let graph := (d.graph.ensure ref.id (newNode now ref.id)).modifyElement ref.id (describe ref)
  if known then { d with graph } else enlist { d with graph } ref.id

def addLinks (now : Instant) (d : Draft) (source : String) : List Link → Draft
  | [] => d
  | l :: ls =>
    let d := d.declare now l.target
    let graph := d.graph.connect now source l.target.id l.arrow.key (l.label.getD "")
    addLinks now { d with graph } l.target.id ls

/-- Opens a subgraph; one without an id is named by the number of elements. -/
def openGroup (now : Instant) (d : Draft) (id label : String) : Draft :=
  let id := if id = "" then "subgraph_" ++ toString (d.graph.elements.size + 1) else id
  let d :=
    if d.graph.hasElement id then d
    else enlist { d with graph := d.graph.addElement (newGroup now id label) } id
  { d with groups := id :: d.groups }

def setStyles (declarations : List (String × String)) (e : Element) : Element :=
  declarations.foldl (fun e (k, v) => e.setStyle k (.str v)) e

def apply (now : Instant) (d : Draft) : Statement → Draft
  | .node ref => d.declare now ref
  | .chain head links => addLinks now (d.declare now head) head.id links
  | .subgraph id label => d.openGroup now id label
  | .close => { d with groups := d.groups.tail }
  | .style ids declarations =>
    { d with graph := ids.foldl (fun g id => g.modifyElement id (setStyles declarations)) d.graph }
  | .direction _ => d

/-- What is no statement is passed over. -/
def readText (now : Instant) (d : Draft) (text : List Char) : Draft :=
  match Statement.ofText? text with
  | some s => d.apply now s
  | none => d

def readLine (now : Instant) (d : Draft) (line : String) : Draft :=
  (statementTexts line.toList).foldl (readText now) d

end Draft

/-- The graph that the lines of a flowchart describe. -/
def read (now : Instant) (lines : List String) : Graph :=
  (lines.foldl (Draft.readLine now) .empty).graph

end DiagramText.Flowchart
