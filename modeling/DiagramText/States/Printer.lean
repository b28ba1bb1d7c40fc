import DiagramText.Layout
import DiagramText.Outline
import DiagramText.States.Draft

/-! State source: the outline of states, then the transitions. The terminal state needs no
declaration. -/
namespace DiagramText.States

def declarationText (e : Element) : String :=
  let start :=
    if e.label = "" ∨ e.label = e.id then "state " ++ e.id
    else "state " ++ Text.quoted e.label ++ " as " ++ e.id
  match (e.property? pseudoKey).bind Pseudo.ofName? with
  | some p => start ++ " <<" ++ p.name ++ ">>"
  | none => start

def itemLine (layout : Layout) : Outline.Item → String
  | .leaf e depth => layout.indented depth (declarationText e)
  | .opens e depth => layout.indented depth (declarationText e ++ " \x7b")
  | .closes depth => layout.indented depth "\x7d"

def transitionText (c : Connection) : String :=
  let start := c.source ++ " --> " ++ c.target
  if c.hasLabel then start ++ " : " ++ Text.oneLine c.label else start

def print (layout : Layout) (g : Graph) (m : Metadata) : String :=
  layout.source "stateDiagram-v2" m <|
    (Outline.ofElements g.elements fun e => e.id = terminal).map (itemLine layout) ++
    g.connections.values.map fun c => layout.indented 1 (transitionText c)

end DiagramText.States
