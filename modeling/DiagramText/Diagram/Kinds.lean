import DiagramText.Text.Digits

/-! The names of things: dialects, directions of flow, and kinds of elements. -/
namespace DiagramText

/-- A dialect of diagram source. -/
inductive Dialect where
  | flowchart
  | sequence
  | classes
  | states
  | entities
deriving DecidableEq, Repr, Inhabited

namespace Dialect

def all : List Dialect := [.flowchart, .sequence, .classes, .states, .entities]

def name : Dialect → String
  | .flowchart => "flowchart"
  | .sequence => "sequence"
  | .classes => "class"
  | .states => "state"
  | .entities => "er"

/-- The keyword that printed source starts with. -/
def keyword : Dialect → String
  | .flowchart => "flowchart"
  | .sequence => "sequenceDiagram"
  | .classes => "classDiagram"
  | .states => "stateDiagram-v2"
  | .entities => "erDiagram"

/-- The keywords that declare the dialect in a header, in any mixture of cases. -/
def keywords : Dialect → List String
  | .flowchart => ["flowchart", "graph"]
  | .sequence => ["sequenceDiagram"]
  | .classes => ["classDiagram", "classDiagram-v2"]
  | .states => ["stateDiagram", "stateDiagram-v2"]
  | .entities => ["erDiagram"]

def names : List (String × Dialect) := all.map fun d => (d.name, d)

/-- Names and keywords under which a user may ask for a dialect, in lower case. -/
def spellings : List (String × Dialect) := [
  ("flowchart", .flowchart), ("graph", .flowchart),
  ("sequence", .sequence), ("sequencediagram", .sequence),
  ("class", .classes), ("classdiagram", .classes),
  ("state", .states), ("statediagram", .states), ("statediagram-v2", .states),
  ("er", .entities), ("erdiagram", .entities)]

/-- The dialect of that name, whatever the case of its ASCII letters. -/
def ofText (s : String) : Except String Dialect :=
  match spellings.lookup (Text.lower s) with
  | some d => .ok d
  | none => .error ("Unknown diagram type: " ++ s)

end Dialect

/-- The direction in which a flowchart runs. -/
inductive Direction where
  | down
  | right
  | left
  | up
deriving DecidableEq, Repr, Inhabited

namespace Direction

def name : Direction → String
  | .down => "TD"
  | .right => "LR"
  | .left => "RL"
  | .up => "BT"

/-- Every spelling; top to bottom has two. -/
def names : List (String × Direction) :=
  [("TD", .down), ("TB", .down), ("LR", .right), ("RL", .left), ("BT", .up)]

/-- The direction of that name, whatever the case of its ASCII letters. -/
def ofText (s : String) : Except String Direction :=
  match names.lookup (String.ofList (s.toList.map Char.toUpper)) with
  | some d => .ok d
  | none => .error ("Unknown direction: " ++ s)

end Direction

/-- What an element is drawn as. -/
inductive ElementKind where
  | node
  | edge
  | container
  | note
deriving DecidableEq, Repr, Inhabited

namespace ElementKind

def name : ElementKind → String
  | .node => "node"
  | .edge => "edge"
  | .container => "container"
  | .note => "annotation"

def names : List (String × ElementKind) :=
  [ElementKind.node, .edge, .container, .note].map fun k => (k.name, k)

end ElementKind
end DiagramText
