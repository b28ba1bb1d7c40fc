import DiagramText.Diagram.Graph
import DiagramText.Sequence.Statement

/-! A sequence diagram while its statements are read: the graph so far, and how many messages and
notes have been counted. Messages become connections, notes become elements of that kind, and both keep their
number. -/
namespace DiagramText.Sequence

/-- The key of the number of a message or note. -/
def orderKey : String := "order"
def roleKey : String := "participant_type"
def placementKey : String := "placement"
def participantsKey : String := "participants"

structure Draft where
  graph : Graph
  steps : Nat
deriving DecidableEq, Repr

namespace Draft

def empty : Draft := ⟨.empty, 0⟩

/-- Participants stand side by side. -/
def newParticipant (now : Instant) (id : String) (column : Nat) : Element :=
  (((Element.node now id id).setProperty Element.typeKey (.str "participant")).setProperty
    roleKey (.str Role.participant.keyword)).moveTo (.ofNat (200 * column) 0)

def participantCount (g : Graph) : Nat :=
  (g.elements.values.filter fun e => e.type? = some "participant").length

def ensure (now : Instant) (g : Graph) (id : String) : Graph :=
  g.ensure id fun _ => newParticipant now id (participantCount g)

def noteCount (g : Graph) : Nat :=
  (g.elements.values.filter fun e => e.kind = .note).length

/-- A note stands below the first participant that it names. -/
def newNote (now : Instant) (g : Graph) (step : Nat) (placement : Placement)
    (participants : List String) (text : String) : Element :=
  let x := ((participants.head?.bind g.element?).map (·.position.x)).getD (.ofNat 0)
  let id := "note_" ++ toString (noteCount g + 1)
  let note := Element.create now id .note text
  let note := note.setProperty Element.typeKey (.str "note")
  let note := note.setProperty placementKey (.str placement.text)
  let note := note.setProperty participantsKey (.ofStrings participants)
  let note := note.setProperty orderKey (.ofNat step)
  note.moveTo ⟨x, .ofNat (50 * step)⟩

def apply (now : Instant) (d : Draft) : Statement → Draft
  | .participant id label role =>
    let graph := (ensure now d.graph id).modifyElement id fun e =>
      { e with label := label.getD e.label }.setProperty roleKey (.str role.keyword)
    { d with graph }
  | .message source target arrow label =>
    let graph := ensure now (ensure now d.graph source) target
    let step := d.steps + 1
    ⟨graph.connect now source target arrow.key (label.getD "") [(orderKey, .ofNat step)], step⟩
  | .note placement participants text =>
    let graph := participants.foldl (ensure now) d.graph
    let step := d.steps + 1
    ⟨graph.addElement (newNote now graph step placement participants text), step⟩

/-- What is no statement is passed over. -/
def readLine (now : Instant) (d : Draft) (line : String) : Draft :=
  match Statement.ofText? line.toList with
  | some s => d.apply now s
  | none => d

end Draft

/-- The graph that the lines of a sequence diagram describe. -/
def read (now : Instant) (lines : List String) : Graph :=
  (lines.foldl (Draft.readLine now) .empty).graph

end DiagramText.Sequence
