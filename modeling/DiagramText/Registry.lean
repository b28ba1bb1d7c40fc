import DiagramText.Classes.Printer
import DiagramText.Entities.Printer
import DiagramText.Failure
import DiagramText.Flowchart.Draft
import DiagramText.Flowchart.Printer
import DiagramText.Sequence.Printer
import DiagramText.Source
import DiagramText.States.Printer

/-! Registries: which dialects are recognised, read and printed. Source is read by finding the
dialect of its header first. -/
namespace DiagramText

namespace Dialect

def read (now : Instant) : Dialect → List String → Graph
  | .flowchart => Flowchart.read now
  | .sequence => Sequence.read now
  | .classes => Classes.read now
  | .states => States.read now
  | .entities => Entities.read now

def print (layout : Layout) : Dialect → Graph → Metadata → String
  | .flowchart => Flowchart.print layout
  | .sequence => Sequence.print layout
  | .classes => Classes.print layout
  | .states => States.print layout
  | .entities => Entities.print layout

end Dialect

structure Registry where
  /-- Asked in this order whether a header is theirs. -/
  detectors : List Dialect
  readers : List Dialect
  printers : List (Dialect × Layout)
deriving DecidableEq, Repr

namespace Registry

def empty : Registry := ⟨[], [], []⟩

/-- Every dialect, printed with one layout. -/
def full (layout : Layout := .usual) : Registry :=
  ⟨Dialect.all, Dialect.all, Dialect.all.map (·, layout)⟩

def addDetector (r : Registry) (d : Dialect) : Registry := { r with detectors := r.detectors ++ [d] }
def addReader (r : Registry) (d : Dialect) : Registry := { r with readers := d :: r.readers }

/-- The printer that is added last is the one that counts. -/
def addPrinter (r : Registry) (d : Dialect) (layout : Layout) : Registry :=
  { r with printers := (d, layout) :: r.printers }

def printer? (r : Registry) (d : Dialect) : Option Layout := r.printers.lookup d

/-- The dialects that are both recognised and read. -/
def supported (r : Registry) : List Dialect :=
  Dialect.all.filter fun d => r.readers.contains d && r.detectors.contains d

/-- The dialect that a header declares. -/
def dialectOf (r : Registry) (header : String) : Except Failure Dialect :=
  match r.detectors.find? fun d => d.declaredBy header with
  | some d => .ok d
  | none => .error (.unknownDialect ((Source.keyword? header).getD header))

def detect (r : Registry) (text : String) : Except Failure Dialect :=
  match Source.ofText? text with
  | some source => r.dialectOf source.header
  | none => .error .emptySource

/-- What a source says about its diagram; only flowcharts have a direction. -/
def metadataOf (now : Instant) (source : Source) (d : Dialect) : Metadata :=
  { Metadata.create now with
    title := source.title
    direction := if d = .flowchart then source.direction? else none }

def parse (r : Registry) (now : Instant) (text : String) : Except Failure Diagram := do
  let some source := Source.ofText? text | throw .emptySource
  let d ← r.dialectOf source.header
  if r.readers.contains d then
    pure (.ofGraph d (d.read now source.body) (metadataOf now source d))
  else throw (.unknownDialect d.name)

def print (r : Registry) (d : Diagram) : Except Failure String :=
  match r.printer? d.dialect with
  | some layout => .ok (d.dialect.print layout d.toGraph d.metadata)
  | none => .error (.noPrinter d.dialect)

/-- Reads source and prints it again in its one canonical form. -/
def format (r : Registry) (now : Instant) (text : String) : Except Failure String := do
  let d ← r.parse now text
  r.print d

end Registry

/-- Reads source of any dialect. -/
def parse (now : Instant) (text : String) : Except Failure Diagram := (Registry.full).parse now text

/-- Prints a diagram in its dialect with the usual layout. -/
def print (d : Diagram) : String := d.dialect.print .usual d.toGraph d.metadata

end DiagramText
