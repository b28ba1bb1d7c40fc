import DiagramText.Text.Blank
import DiagramText.Text.Digits
import DiagramText.Text.Search
import DiagramText.Text.Split

/-! What a text declares itself to be, told from the start of its first line. More types are known
here than can be read. -/
namespace DiagramText.Validation

inductive Declared where
  | flowchart
  | sequence
  | classes
  | states
  | entities
  | journey
  | gantt
  | pie
  | gitgraph
  | mindmap
  | timeline
deriving DecidableEq, Repr

namespace Declared

def name : Declared → String
  | .flowchart => "flowchart"
  | .sequence => "sequenceDiagram"
  | .classes => "classDiagram"
  | .states => "stateDiagram"
  | .entities => "erDiagram"
  | .journey => "journey"
  | .gantt => "gantt"
  | .pie => "pie"
  | .gitgraph => "gitgraph"
  | .mindmap => "mindmap"
  | .timeline => "timeline"

/-- The words that a first line may start with, in the order in which they are tried. -/
def keywords : List (String × Declared) := [
  ("flowchart", .flowchart),
  ("graph", .flowchart),
  ("sequenceDiagram", .sequence),
  ("classDiagram", .classes),
  ("stateDiagram", .states),
  ("erDiagram", .entities),
  ("journey", .journey),
  ("gantt", .gantt),
  ("pie", .pie),
  ("gitgraph", .gitgraph),
  ("mindmap", .mindmap),
  ("timeline", .timeline)]

/-- The type whose word a line starts with, whatever the case of its ASCII letters. -/
def ofLine? (line : List Char) : Option Declared :=
  let start := line.map Char.toLower
  (keywords.find? fun (k, _) => Text.startsWith (Text.lower k).toList start).map (·.2)

end Declared

/-- Neither blank nor a comment. -/
def isStatementLine (line : List Char) : Bool := line != [] && !Text.startsWith ['%', '%'] line

/-- The statement lines of a text, trimmed, under their numbers from 1. -/
def statementLines (text : String) : List (Nat × List Char) :=
  let lines := (Text.lines text.toList).map Text.trim
  ((List.range' 1 lines.length).zip lines).filter fun (_, line) => isStatementLine line

/-- The type that the first statement line of a text declares. -/
def Declared.ofText? (text : String) : Option Declared :=
  (statementLines text).head?.bind fun (_, line) => ofLine? line

end DiagramText.Validation
