import DiagramText.Editor.Event
import DiagramText.Editor.Patch
import DiagramText.Registry
import DiagramText.Validation.Report

/-! Editors: one diagram, changed step by step. A step that is refused changes nothing and makes no
event; one that is carried out leaves no connection without its ends, brings the counts and the
time of the change up to date, and then tells the observers. -/
namespace DiagramText

structure Editor where
  diagram : Diagram
  observers : List Observer
  registry : Registry
  rules : Validation.Rules
deriving DecidableEq, Repr

/-- What a step answers, where it leads, and the events that it makes. -/
structure Step (α : Type) where
  answer : α
  editor : Editor
  events : List Event

namespace Step

/-- Who is told of what. -/
def deliveries (s : Step α) : List Delivery := DiagramText.deliveries s.editor.observers s.events

end Step

namespace Editor

/-- An editor on a diagram. Connections that miss an end are taken out by their ids. -/
def ofDiagram (d : Diagram) : Editor where
  diagram := Diagram.recount
    { d with connections := d.dangling.foldl Table.erase d.connections }
  observers := []
  registry := .full
  rules := .usual

def create (now : Instant) (dialect : Dialect) : Editor := ofDiagram (.create now dialect)

/-- An editor on a diagram in the exchange format, which may not have connections that miss an
end. -/
def decode [Json.Document τ] (now : Instant) (t : τ) : Except Failure Editor :=
  match Diagram.decode now t with
  | none => .error .malformed
  | some d => if d.dangling = [] then .ok (ofDiagram d) else .error (.dangling d.dangling)

def elements (ed : Editor) : Table Element := ed.diagram.elements
def connections (ed : Editor) : Table Connection := ed.diagram.connections

def withLayout (ed : Editor) (layout : Layout) : Editor := { ed with registry := .full layout }
def withRules (ed : Editor) (rules : Validation.Rules) : Editor := { ed with rules }

def observe (ed : Editor) (o : Observer) : Editor := { ed with observers := ed.observers ++ [o] }

/-- One observer of several kinds of events. -/
def subscribe (ed : Editor) (kinds : List EventKind) (name : String) (fails : Bool) : Editor :=
  { ed with observers := ed.observers ++ kinds.map fun kind => ⟨name, kind, fails⟩ }

def observerCount (ed : Editor) (kind : EventKind) : Nat :=
  (ed.observers.filter (·.kind = kind)).length

/-! ### Steps -/

def refuse (ed : Editor) (answer : α) : Step α := ⟨answer, ed, []⟩

/-- Carries out a change of the graph. -/
def carryOut (now : Instant) (ed : Editor) (g : Graph) (answer : α) (events : List Event) : Step α :=
  ⟨answer, { ed with diagram := Diagram.touch now { ed.diagram with toGraph := g } }, events⟩

/-- Refused when the id is taken. -/
def addElement (now : Instant) (ed : Editor) (e : Element) : Step Bool :=
  if ed.elements.contains e.id then ed.refuse false
  else
    let g := { ed.diagram.toGraph with elements := ed.elements.insert e.id e }
    ed.carryOut now g true [.elementAdded e]

/-- Refused when there is no such element. -/
def updateElement (now : Instant) (ed : Editor) (id : String) (p : ElementPatch) : Step Bool :=
  match ed.elements.get? id with
  | none => ed.refuse false
  | some e =>
    let g := ed.diagram.toGraph.modifyElement id (p.apply now)
    ed.carryOut now g true [.elementUpdated (p.apply now e)]

/-- Takes connections out by their ids, one after the other, and gives those that were there. -/
def takeOut : List String → Table Connection → List Connection × Table Connection
  | [], t => ([], t)
  | id :: ids, t =>
    let (taken, left) := takeOut ids (t.erase id)
    ((t.get? id).toList ++ taken, left)

/-- The connections at the element go with it. Refused when there is no such element. -/
def removeElement (now : Instant) (ed : Editor) (id : String) : Step (Option Element) :=
  match ed.elements.get? id with
  | none => ed.refuse none
  | some e =>
    let touching := (ed.diagram.toGraph.connectionsFor id).map (·.id)
    let (taken, left) := takeOut touching ed.connections
    let g := { ed.diagram.toGraph with elements := ed.elements.erase id, connections := left }
    ed.carryOut now g (some e) (taken.map .connectionRemoved ++ [.elementRemoved e])

def hasEnds (ed : Editor) (source target : String) : Bool :=
  ed.elements.contains source && ed.elements.contains target

/-- Refused when the id is taken or an end is missing. -/
def addConnection (now : Instant) (ed : Editor) (c : Connection) : Step Bool :=
  if ed.connections.contains c.id || !ed.hasEnds c.source c.target then ed.refuse false
  else
    let g := { ed.diagram.toGraph with connections := ed.connections.insert c.id c }
    ed.carryOut now g true [.connectionAdded c]

/-- Adds a connection under a fresh id. Refused when an end is missing. -/
def connect (now : Instant) (ed : Editor) (source target kind : String) (label : Option String) :
    Step (Option String) :=
  let id := nextConnectionId ed.connections
  let c := { Connection.create now id source target kind with label := label.getD "" }
  let step := ed.addConnection now c
  ⟨if step.answer then some id else none, step.editor, step.events⟩

/-- Refused when there is no such connection, or an end would be missing. -/
def updateConnection (now : Instant) (ed : Editor) (id : String) (p : ConnectionPatch) : Step Bool :=
  match ed.connections.get? id with
  | none => ed.refuse false
  | some c =>
    if ed.hasEnds (p.source.getD c.source) (p.target.getD c.target) then
      let g := { ed.diagram.toGraph with connections := ed.connections.modify id (p.apply now) }
      ed.carryOut now g true [.connectionUpdated (p.apply now c)]
    else ed.refuse false

/-- Refused when there is no such connection. -/
def removeConnection (now : Instant) (ed : Editor) (id : String) : Step (Option Connection) :=
  match ed.connections.get? id with
  | none => ed.refuse none
  | some c =>
    let g := { ed.diagram.toGraph with connections := ed.connections.erase id }
    ed.carryOut now g (some c) [.connectionRemoved c]

/-- Empties the diagram; nobody is told. -/
def clear (now : Instant) (ed : Editor) : Step Unit := ed.carryOut now .empty () []

/-- Takes over the diagram of a source text. The time of creation and the description stay, and
nobody is told. Refused when the text cannot be read. -/
def load (now : Instant) (ed : Editor) (text : String) : Step (Except Failure Unit) :=
  match ed.registry.parse now text with
  | .error e => ed.refuse (.error e)
  | .ok d =>
    let kept := { d.metadata with
      createdAt := ed.diagram.metadata.createdAt
      description := ed.diagram.metadata.description }
    ⟨.ok (), { ed with diagram := Diagram.touch now { d with metadata := kept } }, []⟩

/-- A step of a run. -/
inductive Edit where
  | addElement (e : Element)
  | updateElement (id : String) (p : ElementPatch)
  | removeElement (id : String)
  | addConnection (c : Connection)
  | connect (source target kind : String) (label : Option String)
  | updateConnection (id : String) (p : ConnectionPatch)
  | removeConnection (id : String)
  | clear
  | load (text : String)

/-- Carries out a step; the answer is whether it was accepted. -/
def apply (now : Instant) (ed : Editor) : Edit → Step Bool
  | .addElement e => ed.addElement now e
  | .updateElement id p => ed.updateElement now id p
  | .removeElement id => let s := ed.removeElement now id; ⟨s.answer.isSome, s.editor, s.events⟩
  | .addConnection c => ed.addConnection now c
  | .connect source target kind label =>
    let s := ed.connect now source target kind label
    ⟨s.answer.isSome, s.editor, s.events⟩
  | .updateConnection id p => ed.updateConnection now id p
  | .removeConnection id =>
    let s := ed.removeConnection now id
    ⟨s.answer.isSome, s.editor, s.events⟩
  | .clear => let s := ed.clear now; ⟨true, s.editor, s.events⟩
  | .load text => let s := ed.load now text; ⟨s.answer.toBool, s.editor, s.events⟩

/-- Carries out steps one after the other, each at its time. -/
def execute : List (Instant × Edit) → Editor → Editor
  | [], ed => ed
  | (now, edit) :: edits, ed => execute edits (ed.apply now edit).editor

/-! ### Source text -/

def source (ed : Editor) : Except Failure String := ed.registry.print ed.diagram

def validateText (ed : Editor) (text : String) : Validation.Report :=
  Validation.validate ed.rules text

/-- Validates the source of the diagram itself. -/
def validate (ed : Editor) : Except Failure Validation.Report := do
  let text ← ed.source
  pure (ed.validateText text)

end Editor
end DiagramText
