import DiagramText.Flowchart.Shape
import DiagramText.Json.Printer
import DiagramText.Layout
import DiagramText.Outline

/-! Flowchart source: the outline of nodes and subgraphs, then the edges, then the styles. -/
namespace DiagramText.Flowchart

/-- Characters that a label without quotes may not have. -/
def quoteTriggers : List Char :=
  ['[', ']', '(', ')', '\x7b', '\x7d', '|', '"', ';', '/', '\\', '<', '>']

def needsQuotes (cs : List Char) : Bool :=
  cs = [] || Text.trim cs != cs || cs.any quoteTriggers.contains

/-- A label on one line, in quotes where it could not be read back without. -/
def labelText (label : String) : String :=
  let line := Text.oneLine label
  if needsQuotes line.toList then Text.quoted line else line

def shapeOf (e : Element) : Shape := (e.shape?.bind Shape.ofKey?).getD .rectangle

def nodeText (e : Element) : String :=
  e.id ++ (shapeOf e).opening ++ labelText e.label ++ (shapeOf e).closing

def groupText (e : Element) : String := "subgraph " ++ e.id ++ " [" ++ labelText e.label ++ "]"

def itemLine (layout : Layout) : Outline.Item → String
  | .leaf e depth => layout.indented depth (nodeText e)
  | .opens e depth => layout.indented depth (groupText e)
  | .closes depth => layout.indented depth "end"

def edgeText (c : Connection) : String :=
  let arrow := (Arrow.ofKey c.kind).token
  if c.hasLabel then c.source ++ " " ++ arrow ++ "|" ++ labelText c.label ++ "| " ++ c.target
  else c.source ++ " " ++ arrow ++ " " ++ c.target

/-- A value that is a string is written as it is, any other as JSON. -/
def styleValue : Json → String
  | .str s => s
  | j => j.compact

def styleText (e : Element) : String :=
  "style " ++ e.id ++ " " ++
    ",".intercalate (e.style.entries.map fun (k, v) => k ++ ":" ++ styleValue v)

def print (layout : Layout) (g : Graph) (m : Metadata) : String :=
  let header := "flowchart " ++ (m.direction.getD layout.defaultDirection).name
  let styled := g.elements.values.filter fun e => !e.style.isEmpty
  layout.source header m <|
    (Outline.ofElements g.elements fun _ => false).map (itemLine layout) ++
    g.connections.values.map (fun c => layout.indented 1 (edgeText c)) ++
    styled.map fun e => layout.indented 1 (styleText e)

end DiagramText.Flowchart
