import DiagramText.CommandLine.Verdict
import DiagramText.Json.Printer
import DiagramText.Json.Tree
import DiagramText.Registry

/-! What the program does with the text that it is given, whatever the command line says about
where the text comes from. -/
namespace DiagramText.CommandLine

structure Application where
  registry : Registry
  rules : Validation.Rules
deriving DecidableEq, Repr

namespace Application

def ofLayout (layout : Layout) : Application := ⟨.full layout, .usual⟩

/-- Source to the exchange format. -/
def parseToJson (app : Application) (now : Instant) (text : String) : Except Failure String := do
  let d ← app.registry.parse now text
  pure d.toJson.pretty

/-- The exchange format to source. -/
def generateFromJson (app : Application) (now : Instant) (text : String) : Except Failure String :=
  match (Json.Tree.ofText? text).bind (Diagram.decode now) with
  | some d => app.registry.print d
  | none => .error .malformed

def formatSource (app : Application) (now : Instant) (text : String) : Except Failure String :=
  app.registry.format now text

/-- Whether the text is valid, and the report on it; hints only if they are asked for. -/
def validationReport (app : Application) (text : String) (json suggest : Bool)
    (palette : Palette) : Bool × String :=
  let report := Validation.validate app.rules text
  let suggestions := if suggest then Validation.suggestions app.rules text else []
  let shown :=
    if json then
      match report.toJson with
      | .obj fields =>
        (Json.obj (fields ++
          if suggest then [("suggestions", .ofStrings suggestions)] else [])).pretty
      | j => j.pretty
    else render report suggestions palette
  (report.isValid, shown)

def description : Dialect → String
  | .flowchart => "Nodes, edges and subgraphs"
  | .sequence => "Participants exchanging ordered messages"
  | .classes => "Classes, members and relationships"
  | .states => "States, transitions and composite states"
  | .entities => "Entities, attributes and cardinalities"

def padRight (width : Nat) (s : String) : String :=
  s ++ String.ofList (List.replicate (width - s.length) ' ')

/-- The dialects that can be read, as JSON or as a list to look at. -/
def typesListing (app : Application) (json : Bool) : String :=
  let types := app.registry.supported
  if json then
    let entries := types.map fun d => Json.obj [
      ("name", .str d.name), ("keyword", .str d.keyword), ("description", .str (description d))]
    (Json.obj [("supported_types", .arr entries), ("total", .ofNat types.length)]).pretty
  else
    Text.joinLines <| ["Supported diagram types:"] ++
      types.map (fun d => "  " ++ padRight 10 d.name ++ " - " ++ description d) ++
      ["", "Total: " ++ toString types.length ++ " diagram types supported"]

end Application
end DiagramText.CommandLine
