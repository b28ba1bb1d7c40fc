import DiagramText.Diagram.Graph
import DiagramText.States.Statement

/-! A state diagram while its statements are read: the graph so far, and the composite states that
are open, the innermost first. -/
namespace DiagramText.States

def pseudoKey : String := "pseudo"

/-- The kind of every connection between states. -/
def transitionKind : String := "transition"

structure Draft where
  graph : Graph
  groups : List String
deriving DecidableEq, Repr

namespace Draft

def empty : Draft := ⟨.empty, []⟩

/-- States stand below one another; the terminal state is a circle without a label. -/
def newState (now : Instant) (id : String) (index : Nat) : Element :=
  let (label, shape) := if id = terminal then ("", "circle") else (id, "rectangle")
  (((Element.node now id label).setProperty Element.typeKey (.str "state")).setProperty
    Element.shapeKey (.str shape)).moveTo (.ofNat 0 (100 * index))

/-- A state that is new, the terminal one apart, is listed in the innermost open composite. -/
def ensure (now : Instant) (groups : List String) (g : Graph) (id : String) : Graph :=
  let g :=
    if g.hasElement id ∨ id = terminal then g
    else match groups with
      | [] => g
      | group :: _ => g.appendTo group Element.childrenKey (.str id)
  g.ensure id (newState now id)

def mark (p : Pseudo) (e : Element) : Element :=
  let e := e.setProperty pseudoKey (.str p.name)
  if p = .choice then e.setProperty Element.shapeKey (.str "diamond") else e

/-- A state with a block is a container, with a list of children from then on. -/
def makeComposite (e : Element) : Element :=
  let e := { e with kind := .container }
  if e.properties.contains Element.childrenKey then e
  else e.setProperty Element.childrenKey (.arr [])

def declared (label : Option String) (pseudo : Option Pseudo) (opensBlock : Bool) (e : Element) :
    Element :=
  let e := { e with label := label.getD e.label }
  let e := match pseudo with
    | some p => mark p e
    | none => e
  if opensBlock then makeComposite e else e

def apply (now : Instant) (d : Draft) : Statement → Draft
  | .declare id label pseudo opensBlock =>
    let graph := (ensure now d.groups d.graph id).modifyElement id
      (declared label pseudo opensBlock)
    { graph, groups := if opensBlock then id :: d.groups else d.groups }
  | .close => { d with groups := d.groups.tail }
  | .transition source target label =>
    let graph := ensure now d.groups (ensure now d.groups d.graph source) target
    { d with graph := graph.connect now source target transitionKind (label.getD "") }
  | .describe id description =>
    let graph := (ensure now d.groups d.graph id).modifyElement id fun e =>
      { e with label := if description = "" then e.label else description }
    { d with graph }

/-- What is no statement is passed over. -/
def readLine (now : Instant) (d : Draft) (line : String) : Draft :=
  match Statement.ofText? line.toList with
  | some s => d.apply now s
  | none => d

end Draft

/-- The graph that the lines of a state diagram describe. -/
def read (now : Instant) (lines : List String) : Graph :=
  (lines.foldl (Draft.readLine now) .empty).graph

end DiagramText.States
