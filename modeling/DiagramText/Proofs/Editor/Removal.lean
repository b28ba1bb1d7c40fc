import DiagramText.Proofs.Editor.Replica

/-! Removal of an element. The connections at it are collected first and taken out by their ids one
after the other; where every connection is stored under its own id, just those go, each once, and all
others stay in their places. Carried out deed by deed, everything is in its last state before anyone
is told. -/
namespace DiagramText

namespace Table

variable {α : Type}

/-- A value is under one key only, if the key can be told from the value. -/
theorem mem_map_filter_values_iff {t : Table α} {key : α → String} {p : String × α} {q : α → Bool}
    (filed : ∀ p ∈ t.entries, p.1 = key p.2) (there : p ∈ t.entries) :
    p.1 ∈ (t.values.filter q).map key ↔ q p.2 = true := by
  constructor
  · intro listed
    obtain ⟨v, found, same⟩ := List.mem_map.1 listed
    obtain ⟨among, holds⟩ := List.mem_filter.1 found
    obtain ⟨r, stored, rfl⟩ := mem_values_iff.1 among
    have first : t.get? p.1 = some p.2 := get?_eq_some_iff.2 there
    have second : t.get? p.1 = some r.2 := by
      rw [← same, ← filed r stored]
      exact get?_eq_some_iff.2 stored
    rw [first] at second
    exact Option.some.inj second ▸ holds
  · intro holds
    rw [filed p there]
    exact List.mem_map_of_mem (List.mem_filter.2 ⟨mem_values_iff.2 ⟨p, there, rfl⟩, holds⟩)

end Table

namespace Editor

variable {ed : Editor} {now : Instant} {id : String} {e : Element}

/-! ### What goes and what stays -/

/-- Each of the connections that are there goes once, in the order of the ids. -/
theorem fst_takeOut {ids : List String} (distinct : ids.Nodup) (t : Table Connection) :
    (takeOut ids t).1 = ids.filterMap t.get? := by
  induction ids generalizing t with
  | nil => rfl
  | cons id ids ih =>
    rw [List.nodup_cons] at distinct
    have others : ids.filterMap (t.erase id).get? = ids.filterMap t.get? := by
      apply List.filterMap_congr
      intro k later
      rw [Table.get?_erase, if_neg fun own : k = id => distinct.1 (own ▸ later)]
    show (t.get? id).toList ++ (takeOut ids (t.erase id)).1 = _
    rw [ih distinct.2, others]
    cases found : t.get? id <;> simp [found]

/-- The ids of the connections at an element, in the order of the table. -/
def touchingIds (ed : Editor) (id : String) : List String :=
  (ed.diagram.toGraph.connectionsFor id).map (·.id)

/-- One event for each connection at an element, in the order of the table, and one for the element. -/
def removalEvents (ed : Editor) (id : String) (e : Element) : List Event :=
  (ed.connections.values.filter (·.touches id)).map .connectionRemoved ++ [.elementRemoved e]

theorem nodup_touchingIds (filed : ed.diagram.toGraph.Filed) (id : String) :
    (ed.touchingIds id).Nodup := by
  have keys : ed.connections.values.map (·.id) = ed.connections.keys := by
    rw [Table.values, Table.keys, List.map_map]
    exact List.map_congr_left fun p there => (filed p there).symm
  have part : (ed.touchingIds id).Sublist (ed.connections.values.map (·.id)) :=
    List.filter_sublist.map _
  exact part.nodup (keys ▸ ed.connections.nodup)

/-- What goes is what touches the element. -/
theorem fst_takeOut_touchingIds (filed : ed.diagram.toGraph.Filed) (id : String) :
    (takeOut (ed.touchingIds id) ed.connections).1 = ed.connections.values.filter (·.touches id) := by
  have found : ∀ c ∈ ed.connections.values.filter (·.touches id), ed.connections.get? c.id = some c := by
    intro c among
    obtain ⟨p, there, rfl⟩ := Table.mem_values_iff.1 (List.mem_filter.1 among).1
    rw [← filed p there]
    exact Table.get?_eq_some_iff.2 there
  rw [fst_takeOut (nodup_touchingIds filed id), touchingIds, List.filterMap_map]
  exact (List.filterMap_congr found).trans List.filterMap_some

/-- What stays is what does not touch the element. -/
theorem entries_takeOut_touchingIds (filed : ed.diagram.toGraph.Filed) (id : String) :
    (takeOut (ed.touchingIds id) ed.connections).2.entries =
      ed.connections.entries.filter fun p => !p.2.touches id := by
  rw [entries_takeOut]
  apply List.filter_congr
  intro p there
  have touches : p.1 ∈ ed.touchingIds id ↔ p.2.touches id = true :=
    Table.mem_map_filter_values_iff filed there
  by_cases at_end : p.2.touches id <;> simp [touches, at_end]

/-! ### Deed by deed -/

/-- One thing that is done in the course of a removal. -/
inductive Deed where
  | dropElement (id : String)
  | dropConnection (id : String)
  | settle (now : Instant)
  | tell (event : Event)

/-- A diagram that is being changed, and the events told of so far, each with the diagram as it was
when the event was told. -/
structure Course where
  diagram : Diagram
  told : List (Event × Diagram)

namespace Course

def take (c : Course) : Deed → Course
  | .dropElement id => { c with diagram := { c.diagram with elements := c.diagram.elements.erase id } }
  | .dropConnection id =>
    { c with diagram := { c.diagram with connections := c.diagram.connections.erase id } }
  | .settle now => { c with diagram := c.diagram.touch now }
  | .tell event => { c with told := c.told ++ [(event, c.diagram)] }

theorem foldl_dropConnection (ids : List String) (c : Course) : (ids.map .dropConnection).foldl take c =
    { c with diagram := { c.diagram with connections := (takeOut ids c.diagram.connections).2 } } := by
  induction ids generalizing c with
  | nil => rfl
  | cons id ids ih => rw [List.map_cons, List.foldl_cons, ih]; rfl

/-- Telling changes no diagram. -/
theorem foldl_tell (events : List Event) (c : Course) :
    (events.map .tell).foldl take c = { c with told := c.told ++ events.map (·, c.diagram) } := by
  induction events generalizing c with
  | nil => simp
  | cons event events ih =>
    rw [List.map_cons, List.foldl_cons, ih]
    simp [take]

end Course

/-- The element goes, the connections at it go one by one, the counts and the time are settled, and then
all that went is told of. -/
def removal (now : Instant) (ed : Editor) (id : String) (e : Element) : List Deed :=
  .dropElement id :: ((ed.touchingIds id).map .dropConnection ++
    .settle now :: (ed.removalEvents id e).map .tell)

/-! ### The whole step -/

theorem removeElement_of_get? (there : ed.elements.get? id = some e) : ed.removeElement now id =
    let (taken, left) := takeOut (ed.touchingIds id) ed.connections
    ed.carryOut now ⟨ed.elements.erase id, left⟩ (some e)
      (taken.map .connectionRemoved ++ [.elementRemoved e]) := by
  unfold removeElement
  rw [there]
  rfl

theorem events_removeElement (filed : ed.diagram.toGraph.Filed) (there : ed.elements.get? id = some e) :
    (ed.removeElement now id).events = ed.removalEvents id e := by
  rw [removeElement_of_get? there, removalEvents, ← fst_takeOut_touchingIds filed id]
  rfl

/-- Deed by deed, a removal comes out where the step does, and whatever is told is told of there. -/
theorem foldl_take_removal (filed : ed.diagram.toGraph.Filed) (there : ed.elements.get? id = some e) :
    (removal now ed id e).foldl Course.take ⟨ed.diagram, []⟩ =
      ⟨(ed.removeElement now id).editor.diagram,
        (ed.removeElement now id).events.map (·, (ed.removeElement now id).editor.diagram)⟩ := by
  rw [removal, List.foldl_cons, List.foldl_append, Course.foldl_dropConnection, List.foldl_cons,
    Course.foldl_tell, events_removeElement filed there, removeElement_of_get? there]
  rfl

/-- Three elements with two connections from the first to the second, one back, a loop at the first, and one
that does not touch it. -/
def knot : List (Instant × Edit) := [
  (.epoch, .addElement (.node .epoch "A" "A")),
  (.epoch, .addElement (.node .epoch "B" "B")),
  (.epoch, .addElement (.node .epoch "C" "C")),
  (.epoch, .connect "A" "B" "default" none),
  (.epoch, .connect "B" "C" "default" none),
  (.epoch, .connect "A" "A" "default" none),
  (.epoch, .connect "B" "A" "default" none),
  (.epoch, .connect "A" "B" "default" none)]

end Editor
end DiagramText
