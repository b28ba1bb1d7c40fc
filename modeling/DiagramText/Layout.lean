import DiagramText.Diagram.Exchange
import DiagramText.Text.Split

/-! How source is laid out on the page, whatever the dialect: indentation, the header with the
title below it, and one statement on a line. -/
namespace DiagramText

structure Layout where
  indent : Nat
  defaultDirection : Direction
  emitTitle : Bool
deriving DecidableEq, Repr

namespace Layout

/-- Four spaces a level, running down, with the title. -/
def usual : Layout := ⟨4, .down, true⟩

instance : Inhabited Layout := ⟨usual⟩

def toJson (l : Layout) : Json := .obj [
  ("indent", .ofNat l.indent),
  ("default_direction", .str l.defaultDirection.name),
  ("emit_title", .bool l.emitTitle)]

open Json in
def decode [Document τ] : Decoder τ Layout := fun t => do
  let fs ← Decoder.fields ["indent", "default_direction", "emit_title"] t
  let indent ← Decoder.defaulted fs "indent" usual.indent Decoder.word
  let direction ← Decoder.defaulted fs "default_direction" usual.defaultDirection Direction.decode
  let emitTitle ← Decoder.defaulted fs "emit_title" usual.emitTitle Decoder.bool
  pure ⟨indent, direction, emitTitle⟩

/-- The blanks before a statement at a depth; depth 1 is the body. -/
def pad (l : Layout) (depth : Nat) : String :=
  String.ofList (List.replicate (l.indent * depth) ' ')

def indented (l : Layout) (depth : Nat) (line : String) : String := l.pad depth ++ line

/-- A title of blanks alone is none. -/
def titleLines (l : Layout) (m : Metadata) : List String :=
  match m.title with
  | some title =>
    if l.emitTitle && !Text.isBlankText title then
      [l.indented 1 ("%% title: " ++ Text.trimmed (Text.oneLine title))]
    else []
  | none => []

/-- A whole source text: the header, the title, and the lines of the body. -/
def source (l : Layout) (header : String) (m : Metadata) (body : List String) : String :=
  Text.joinLines (header :: l.titleLines m ++ body)

end Layout
end DiagramText
