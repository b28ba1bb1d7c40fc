import DiagramText.Entities.Draft
import DiagramText.Layout

/-! Entity-relationship source: the entities with their attributes, then the relationships. -/
namespace DiagramText.Entities

/-- What is stored as an attribute and has no type or name is not written. -/
def attributeText? (a : Json) : Option String := do
  let dataType ← (a.field? "type").bind Json.string?
  let name ← (a.field? "name").bind Json.string?
  let keys := ((a.field? "keys").map Json.strings).getD []
  let keysText := if keys = [] then "" else " " ++ ", ".intercalate keys
  let commentText := match (a.field? "comment").bind Json.string? with
    | some comment => " " ++ Text.quoted comment
    | none => ""
  pure (dataType ++ " " ++ name ++ keysText ++ commentText)

def attributeTexts (e : Element) : List String :=
  (((e.properties.get? attributesKey).bind Json.items?).getD []).filterMap attributeText?

/-- An entity without attributes has no braces. -/
def entityLines (layout : Layout) (e : Element) : List String :=
  match attributeTexts e with
  | [] => [layout.indented 1 e.id]
  | attributes =>
    [layout.indented 1 (e.id ++ " \x7b")] ++ attributes.map (layout.indented 2) ++
      [layout.indented 1 "\x7d"]

/-- A label that could be a name stands without quotes. -/
def labelText (label : String) : String :=
  if label ≠ "" ∧ label.toList.all Text.isNameChar then label else Text.quoted label

def cardinalityOf (c : Connection) (key : String) : Cardinality :=
  ((c.property? key).map Cardinality.ofKey).getD .exactlyOne

def relationshipText (c : Connection) : String :=
  c.source ++ " " ++ (cardinalityOf c leftKey).leftMarker ++ (Line.ofKey c.kind).token ++
    (cardinalityOf c rightKey).rightMarker ++ " " ++ c.target ++ " : " ++ labelText c.label

def print (layout : Layout) (g : Graph) (m : Metadata) : String :=
  layout.source "erDiagram" m <|
    g.elements.values.flatMap (entityLines layout) ++
    g.connections.values.map fun c => layout.indented 1 (relationshipText c)

end DiagramText.Entities
