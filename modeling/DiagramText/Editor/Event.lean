import DiagramText.Diagram.Element

/-! Events: changes that have been made to a diagram, and who is told of them. -/
namespace DiagramText

inductive EventKind where
  | elementAdded
  | elementUpdated
  | elementRemoved
  | connectionAdded
  | connectionUpdated
  | connectionRemoved
deriving DecidableEq, Repr, Inhabited

/-- A change with the element or connection as it is after it, or was before it was removed. -/
inductive Event where
  | elementAdded (e : Element)
  | elementUpdated (e : Element)
  | elementRemoved (e : Element)
  | connectionAdded (c : Connection)
  | connectionUpdated (c : Connection)
  | connectionRemoved (c : Connection)
deriving DecidableEq, Repr

namespace Event

def kind : Event → EventKind
  | .elementAdded _ => .elementAdded
  | .elementUpdated _ => .elementUpdated
  | .elementRemoved _ => .elementRemoved
  | .connectionAdded _ => .connectionAdded
  | .connectionUpdated _ => .connectionUpdated
  | .connectionRemoved _ => .connectionRemoved

def subjectId : Event → String
  | .elementAdded e | .elementUpdated e | .elementRemoved e => e.id
  | .connectionAdded c | .connectionUpdated c | .connectionRemoved c => c.id

def label : Event → String
  | .elementAdded e | .elementUpdated e | .elementRemoved e => e.label
  | .connectionAdded c | .connectionUpdated c | .connectionRemoved c => c.label

end Event

/-- Someone who is told of the events of one kind, and who may fail on each of them. -/
structure Observer where
  name : String
  kind : EventKind
  fails : Bool
deriving DecidableEq, Repr

structure Delivery where
  observer : String
  event : Event
  failed : Bool
deriving DecidableEq, Repr

/-- Every event goes to all observers of its kind in the order in which they came; one that fails
holds up neither the event nor the others. -/
def deliveries (observers : List Observer) (events : List Event) : List Delivery :=
  events.flatMap fun event =>
    (observers.filter (·.kind = event.kind)).map fun o => ⟨o.name, event, o.fails⟩

end DiagramText
