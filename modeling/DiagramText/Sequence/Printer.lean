import DiagramText.Layout
import DiagramText.Sequence.Draft

/-! Sequence source: the participants first, then messages and notes in the order of their
numbers. Those without a number come last. -/
namespace DiagramText.Sequence

def declarationText (e : Element) : String :=
  let start := (Role.ofKeyword (e.property? roleKey)).keyword ++ " " ++ e.id
  if e.label = "" ∨ e.label = e.id then start else start ++ " as " ++ Text.oneLine e.label

def messageText (c : Connection) : String :=
  let start := c.source ++ (Arrow.ofKey c.kind).token ++ c.target
  if c.hasLabel then start ++ ": " ++ Text.oneLine c.label else start

/-- A note that names nobody is not written. -/
def noteText? (e : Element) : Option String :=
  match e.listed participantsKey with
  | [] => none
  | ids =>
    let placement := (Placement.ofText (e.property? placementKey)).text
    some ("Note " ++ placement ++ " " ++ ",".intercalate ids ++ ": " ++ Text.oneLine e.label)

/-- The number among the properties of a message or note. -/
def orderOf (properties : Table Json) : Nat :=
  ((properties.get? orderKey).bind Json.word?).getD Json.maxWord

/-- Messages and notes with their numbers; steps of one number stay in this order. -/
def steps (g : Graph) : List (Nat × Option String) :=
  g.connections.values.map (fun c => (orderOf c.properties, some (messageText c))) ++
  (g.elements.values.filter fun e => e.kind = .note).map fun e =>
    (orderOf e.properties, noteText? e)

def print (layout : Layout) (g : Graph) (m : Metadata) : String :=
  let declared := g.elements.values.filter fun e => e.kind ≠ .note
  let ordered := (steps g).mergeSort fun a b => a.1 ≤ b.1
  layout.source "sequenceDiagram" m <|
    declared.map (fun e => layout.indented 1 (declarationText e)) ++
    (ordered.filterMap (·.2)).map (layout.indented 1)

end DiagramText.Sequence
