import DiagramText.Diagram.Basic
import DiagramText.Json.Document

/-! The exchange format: diagrams as JSON. Writing gives every field in a fixed order; reading
takes the fields in any order, passes over those it does not know, and fills in those that may be
missing. -/
namespace DiagramText
open Json

namespace Position

def toJson (p : Position) : Json := .obj [("x", ofFloat p.x), ("y", ofFloat p.y)]

def decode [Document τ] : Decoder τ Position := fun t => do
  let fs ← Decoder.fields ["x", "y"] t
  let x ← Decoder.required fs "x" Decoder.float
  let y ← Decoder.required fs "y" Decoder.float
  pure ⟨x, y⟩

end Position

namespace Size

def toJson (s : Size) : Json := .obj [("width", ofFloat s.width), ("height", ofFloat s.height)]

def decode [Document τ] : Decoder τ Size := fun t => do
  let fs ← Decoder.fields ["width", "height"] t
  let width ← Decoder.required fs "width" Decoder.float
  let height ← Decoder.required fs "height" Decoder.float
  pure ⟨width, height⟩

end Size

namespace Instant

def toJson (i : Instant) : Json := .str i.text

def decode [Document τ] : Decoder τ Instant := fun t => (Decoder.string t).bind ofText?

end Instant

/-- Properties and styles: any values under their keys. -/
def decodeValues [Document τ] : Decoder τ (Table Json) := Decoder.table Decoder.value

namespace Element

def toJson (e : Element) : Json := .obj [
  ("id", .str e.id),
  ("element_type", .str e.kind.name),
  ("label", .str e.label),
  ("position", e.position.toJson),
  ("size", e.size.toJson),
  ("properties", .ofTable e.properties),
  ("style", .ofTable e.style),
  ("created_at", e.createdAt.toJson),
  ("updated_at", e.updatedAt.toJson)]

def fieldNames : List String :=
  ["id", "element_type", "label", "position", "size", "properties", "style", "created_at",
    "updated_at"]

def decode [Document τ] : Decoder τ Element := fun t => do
  let fs ← Decoder.fields fieldNames t
  let id ← Decoder.required fs "id" Decoder.string
  let kind ← Decoder.required fs "element_type" (Decoder.oneOf ElementKind.names)
  let label ← Decoder.required fs "label" Decoder.string
  let position ← Decoder.required fs "position" Position.decode
  let size ← Decoder.required fs "size" Size.decode
  let properties ← Decoder.defaulted fs "properties" ∅ decodeValues
  let style ← Decoder.defaulted fs "style" ∅ decodeValues
  let createdAt ← Decoder.required fs "created_at" Instant.decode
  let updatedAt ← Decoder.required fs "updated_at" Instant.decode
  pure { id, kind, label, position, size, properties, style, createdAt, updatedAt }

end Element

namespace Connection

def toJson (c : Connection) : Json := .obj [
  ("id", .str c.id),
  ("source_id", .str c.source),
  ("target_id", .str c.target),
  ("label", .str c.label),
  ("connection_type", .str c.kind),
  ("style", .ofTable c.style),
  ("properties", .ofTable c.properties),
  ("control_points", .arr (c.points.map Position.toJson)),
  ("created_at", c.createdAt.toJson),
  ("updated_at", c.updatedAt.toJson)]

def fieldNames : List String :=
  ["id", "source_id", "target_id", "label", "connection_type", "style", "properties",
    "control_points", "created_at", "updated_at"]

def decode [Document τ] : Decoder τ Connection := fun t => do
  let fs ← Decoder.fields fieldNames t
  let id ← Decoder.required fs "id" Decoder.string
  let source ← Decoder.required fs "source_id" Decoder.string
  let target ← Decoder.required fs "target_id" Decoder.string
  let label ← Decoder.defaulted fs "label" "" Decoder.string
  let kind ← Decoder.required fs "connection_type" Decoder.string
  let style ← Decoder.defaulted fs "style" ∅ decodeValues
  let properties ← Decoder.defaulted fs "properties" ∅ decodeValues
  let points ← Decoder.defaulted fs "control_points" [] (Decoder.list Position.decode)
  let createdAt ← Decoder.required fs "created_at" Instant.decode
  let updatedAt ← Decoder.required fs "updated_at" Instant.decode
  pure { id, source, target, label, kind, style, properties, points, createdAt, updatedAt }

end Connection

namespace Direction

def decode [Document τ] : Decoder τ Direction := Decoder.oneOf names

end Direction

namespace Metadata

def toJson (m : Metadata) : Json := .obj [
  ("title", ofOption .str m.title),
  ("description", ofOption .str m.description),
  ("direction", ofOption (fun d => .str d.name) m.direction),
  ("element_count", .ofNat m.elementCount),
  ("connection_count", .ofNat m.connectionCount),
  ("created_at", m.createdAt.toJson),
  ("updated_at", m.updatedAt.toJson)]

def fieldNames : List String :=
  ["title", "description", "direction", "element_count", "connection_count", "created_at",
    "updated_at"]

def decode [Document τ] : Decoder τ Metadata := fun t => do
  let fs ← Decoder.fields fieldNames t
  let title ← Decoder.defaulted fs "title" none (Decoder.nullable Decoder.string)
  let description ← Decoder.defaulted fs "description" none (Decoder.nullable Decoder.string)
  let direction ← Decoder.defaulted fs "direction" none (Decoder.nullable Direction.decode)
  let elementCount ← Decoder.defaulted fs "element_count" 0 Decoder.word
  let connectionCount ← Decoder.defaulted fs "connection_count" 0 Decoder.word
  let createdAt ← Decoder.required fs "created_at" Instant.decode
  let updatedAt ← Decoder.required fs "updated_at" Instant.decode
  pure { title, description, direction, elementCount, connectionCount, createdAt, updatedAt }

end Metadata

namespace Diagram

def toJson (d : Diagram) : Json := .obj [
  ("diagram_type", .str d.dialect.name),
  ("elements", .ofTable (d.elements.mapValues Element.toJson)),
  ("connections", .ofTable (d.connections.mapValues Connection.toJson)),
  ("metadata", d.metadata.toJson)]

/-- A diagram; one without metadata is as new. -/
def decode [Document τ] (now : Instant) : Decoder τ Diagram := fun t => do
  let fs ← Decoder.fields ["diagram_type", "elements", "connections", "metadata"] t
  let dialect ← Decoder.required fs "diagram_type" (Decoder.oneOf Dialect.names)
  let elements ← Decoder.defaulted fs "elements" ∅ (Decoder.table Element.decode)
  let connections ← Decoder.defaulted fs "connections" ∅ (Decoder.table Connection.decode)
  let metadata ← Decoder.defaulted fs "metadata" (Metadata.create now) Metadata.decode
  pure { elements, connections, dialect, metadata }

end Diagram
end DiagramText
