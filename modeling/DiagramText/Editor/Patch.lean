import DiagramText.Diagram.Element

/-! Patches: the fields of an element or connection that are to change. An id never does. -/
namespace DiagramText

/-- Sets the keys that have a value and takes out those that have `null`; what is taken out leaves
its place to the last key. -/
def mergeValues (changes : Table Json) (t : Table Json) : Table Json :=
  changes.entries.foldl (fun t (k, v) => if v.isNull then t.swapErase k else t.insert k v) t

structure ElementPatch where
  label : Option String := none
  kind : Option ElementKind := none
  position : Option Position := none
  size : Option Size := none
  properties : Table Json := ∅
  style : Table Json := ∅
deriving DecidableEq, Repr

/-- What the patch does not name stays; the time of the change is noted in any case. -/
def ElementPatch.apply (now : Instant) (p : ElementPatch) (e : Element) : Element :=
  { e with
    label := p.label.getD e.label
    kind := p.kind.getD e.kind
    position := p.position.getD e.position
    size := p.size.getD e.size
    properties := mergeValues p.properties e.properties
    style := mergeValues p.style e.style
    updatedAt := now }

structure ConnectionPatch where
  source : Option String := none
  target : Option String := none
  label : Option String := none
  kind : Option String := none
  properties : Table Json := ∅
  style : Table Json := ∅
  points : Option (List Position) := none
deriving DecidableEq, Repr

/-- What the patch does not name stays; the time of the change is noted in any case. -/
def ConnectionPatch.apply (now : Instant) (p : ConnectionPatch) (c : Connection) : Connection :=
  { c with
    source := p.source.getD c.source
    target := p.target.getD c.target
    label := p.label.getD c.label
    kind := p.kind.getD c.kind
    properties := mergeValues p.properties c.properties
    style := mergeValues p.style c.style
    points := p.points.getD c.points
    updatedAt := now }

end DiagramText
