import DiagramText.Classes.Draft
import DiagramText.Layout

/-! Class source: the classes with their members, then the relations. -/
namespace DiagramText.Classes

def headText (e : Element) : String :=
  let start := "class " ++ e.id
  if e.label ≠ "" ∧ e.label ≠ e.id then start ++ "[" ++ Text.quoted e.label ++ "]" else start

/-- The lines between the braces: stereotype, attributes, methods. -/
def bodyTexts (e : Element) : List String :=
  let stereotype := ((e.property? stereotypeKey).bind Reader.nonEmpty).map fun a =>
    "<<" ++ Text.oneLine a ++ ">>"
  stereotype.toList ++ (e.listed attributesKey ++ e.listed methodsKey).map Text.oneLine

/-- A class without members has no braces. -/
def classLines (layout : Layout) (e : Element) : List String :=
  match bodyTexts e with
  | [] => [layout.indented 1 (headText e)]
  | body =>
    [layout.indented 1 (headText e ++ " \x7b")] ++ body.map (layout.indented 2) ++
      [layout.indented 1 "\x7d"]

def cardinalityText (cardinality : Option String) : String :=
  match cardinality with
  | some s => " " ++ Text.quoted s
  | none => ""

def relationText (c : Connection) : String :=
  let label := if c.hasLabel then ": " ++ Text.oneLine c.label else ""
  c.source ++ cardinalityText (c.property? sourceCardinalityKey) ++ " " ++
    (Relation.ofKey c.kind).token ++ cardinalityText (c.property? targetCardinalityKey) ++ " " ++
    c.target ++ label

def print (layout : Layout) (g : Graph) (m : Metadata) : String :=
  layout.source "classDiagram" m <|
    g.elements.values.flatMap (classLines layout) ++
    g.connections.values.map fun c => layout.indented 1 (relationText c)

end DiagramText.Classes
