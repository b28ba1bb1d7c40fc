import DiagramText.Reader

/-! Shapes of nodes and arrows between them: their brackets and tokens in source text, and the keys
under which a diagram keeps them. -/
namespace DiagramText.Flowchart

inductive Shape where
  | rectangle
  | rounded
  | circle
  | diamond
  | hexagon
  | stadium
  | subroutine
  | cylinder
  | asymmetric
  | parallelogram
  | parallelogramAlt
  | trapezoid
  | trapezoidAlt
deriving DecidableEq, Repr, Inhabited

namespace Shape

/-- Every shape; those that open with two characters come before those that open with one. -/
def all : List Shape := [
  .circle, .stadium, .hexagon, .subroutine, .cylinder, .parallelogram, .trapezoid,
  .parallelogramAlt, .trapezoidAlt, .rectangle, .rounded, .diamond, .asymmetric]

def key : Shape → String
  | .rectangle => "rectangle"
  | .rounded => "rounded"
  | .circle => "circle"
  | .diamond => "diamond"
  | .hexagon => "hexagon"
  | .stadium => "stadium"
  | .subroutine => "subroutine"
  | .cylinder => "cylinder"
  | .asymmetric => "asymmetric"
  | .parallelogram => "parallelogram"
  | .parallelogramAlt => "parallelogram_alt"
  | .trapezoid => "trapezoid"
  | .trapezoidAlt => "trapezoid_alt"

def ofKey? (key : String) : Option Shape := all.find? fun s => s.key = key

def opening : Shape → String
  | .rectangle => "["
  | .rounded => "("
  | .circle => "(("
  | .diamond => "\x7b"
  | .hexagon => "\x7b\x7b"
  | .stadium => "(["
  | .subroutine => "[["
  | .cylinder => "[("
  | .asymmetric => ">"
  | .parallelogram => "[/"
  | .parallelogramAlt => "[\\"
  | .trapezoid => "[/"
  | .trapezoidAlt => "[\\"

def closing : Shape → String
  | .rectangle => "]"
  | .rounded => ")"
  | .circle => "))"
  | .diamond => "\x7d"
  | .hexagon => "\x7d\x7d"
  | .stadium => "])"
  | .subroutine => "]]"
  | .cylinder => ")]"
  | .asymmetric => "]"
  | .parallelogram => "/]"
  | .parallelogramAlt => "\\]"
  | .trapezoid => "\\]"
  | .trapezoidAlt => "/]"

/-- Shapes with slashes for brackets. -/
def isSlanted : Shape → Bool
  | .parallelogram | .parallelogramAlt | .trapezoid | .trapezoidAlt => true
  | _ => false

end Shape

inductive Arrow where
  | dottedArrow
  | dotted
  | thick
  | thickLine
  | plain
  | line
  | circle
  | cross
  | invisible
deriving DecidableEq, Repr, Inhabited

namespace Arrow

/-- Every arrow; a token comes before those that start it. -/
def all : List Arrow :=
  [.dottedArrow, .dotted, .thick, .thickLine, .plain, .line, .circle, .cross, .invisible]

def token : Arrow → String
  | .dottedArrow => "-.->"
  | .dotted => "-.-"
  | .thick => "==>"
  | .thickLine => "==="
  | .plain => "-->"
  | .line => "---"
  | .circle => "--o"
  | .cross => "--x"
  | .invisible => "~~~"

/-- The kind of connection that an arrow draws. -/
def key : Arrow → String
  | .dottedArrow => "dotted_arrow"
  | .dotted => "dotted"
  | .thick => "thick"
  | .thickLine => "thick_line"
  | .plain => "default"
  | .line => "line"
  | .circle => "circle"
  | .cross => "cross"
  | .invisible => "invisible"

def ofToken? (token : String) : Option Arrow := all.find? fun a => a.token = token
def ofKey? (key : String) : Option Arrow := all.find? fun a => a.key = key

/-- Connections of an unknown kind are drawn as plain arrows. -/
def ofKey (key : String) : Arrow := (ofKey? key).getD .plain
def ofToken (token : String) : Arrow := (ofToken? token).getD .plain

def reader : Reader Arrow := Reader.oneOf (all.map fun a => (a.token, a))

end Arrow
end DiagramText.Flowchart
