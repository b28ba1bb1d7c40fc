import DiagramText.Diagram.Graph

/-! The clock and graphs. A reader stamps all that it makes with one time and never looks at it:
the same operations at another time give the same graph but for the stamps. -/
namespace DiagramText

namespace Table

variable {α β : Type}

theorem map_put (f : α → β) (k : String) (v : α) (es : List (String × α)) :
    (put k v es).map (fun (l, w) => (l, f w)) = put k (f v) (es.map fun (l, w) => (l, f w)) := by
  induction es with
  | nil => rfl
  | cons e es ih => by_cases h : e.1 = k <;> simp [put, h, ih]

theorem mapValues_insert (t : Table α) (f : α → β) (k : String) (v : α) :
    (t.insert k v).mapValues f = (t.mapValues f).insert k (f v) := ext (map_put f k v t.entries)

theorem mapValues_modify (t : Table α) (f : α → β) (k : String) {u : α → α} {w : β → β}
    (commute : ∀ a, f (u a) = w (f a)) :
    (t.modify k u).mapValues f = (t.mapValues f).modify k w := by
  apply ext
  simp only [mapValues, modify, List.map_map]
  apply List.map_congr_left
  intro e _
  simp only [Function.comp_apply]
  split <;> simp [commute]

@[simp] theorem keys_mapValues (t : Table α) (f : α → β) : (t.mapValues f).keys = t.keys :=
  keys_map t.entries fun _ w => f w

@[simp] theorem size_mapValues (t : Table α) (f : α → β) : (t.mapValues f).size = t.size :=
  List.length_map ..

@[simp] theorem values_mapValues (t : Table α) (f : α → β) :
    (t.mapValues f).values = t.values.map f := by simp [values, mapValues, Function.comp_def]

@[simp] theorem contains_mapValues (t : Table α) (f : α → β) (k : String) :
    (t.mapValues f).contains k = t.contains k := by
  rw [Bool.eq_iff_iff, contains_iff, contains_iff, keys_mapValues]

theorem get?_mapValues (t : Table α) (f : α → β) (k : String) :
    (t.mapValues f).get? k = (t.get? k).map f := by
  simp only [get?, mapValues]
  induction t.entries with
  | nil => rfl
  | cons e es ih =>
    obtain ⟨l, w⟩ := e
    simp only [List.map_cons, lookup_cons, ih]
    split <;> rfl

end Table

def Element.retimed (now : Instant) (e : Element) : Element :=
  { e with createdAt := now, updatedAt := now }

def Connection.retimed (now : Instant) (c : Connection) : Connection :=
  { c with createdAt := now, updatedAt := now }

theorem nextConnectionId_mapValues (t : Table Connection) (f : Connection → Connection) :
    nextConnectionId (t.mapValues f) = nextConnectionId t := by
  have search (fuel n : Nat) : freeIdFrom (t.mapValues f) fuel n = freeIdFrom t fuel n := by
    induction fuel generalizing n with
    | zero => rfl
    | succ fuel ih => simp only [freeIdFrom, Table.contains_mapValues, ih]
  simp only [nextConnectionId, Table.size_mapValues, search]

namespace Graph

/-- The graph as it would be if all of it had been made at one time. -/
def retimed (now : Instant) (g : Graph) : Graph :=
  ⟨g.elements.mapValues (·.retimed now), g.connections.mapValues (·.retimed now)⟩

variable {now : Instant} {g : Graph}

@[simp] theorem hasElement_retimed (id : String) :
    (g.retimed now).hasElement id = g.hasElement id := Table.contains_mapValues ..

@[simp] theorem size_elements_retimed : (g.retimed now).elements.size = g.elements.size :=
  Table.size_mapValues ..

@[simp] theorem values_elements_retimed :
    (g.retimed now).elements.values = g.elements.values.map (·.retimed now) :=
  Table.values_mapValues ..

@[simp] theorem element?_retimed (id : String) :
    (g.retimed now).element? id = (g.element? id).map (·.retimed now) := Table.get?_mapValues ..

theorem retimed_modifyElement (id : String) {f : Element → Element}
    (blind : ∀ e, (f e).retimed now = f (e.retimed now)) :
    (g.modifyElement id f).retimed now = (g.retimed now).modifyElement id f := by
  simp only [retimed, modifyElement, Table.mapValues_modify _ _ _ blind]

theorem retimed_ensure (id : String) {make later : Nat → Element}
    (same : ∀ n, (make n).retimed now = later n) :
    (g.ensure id make).retimed now = (g.retimed now).ensure id later := by
  unfold ensure
  rw [hasElement_retimed]
  split
  · rfl
  · simp only [retimed, Table.mapValues_insert, same, Table.size_mapValues]

theorem retimed_addElement {e later : Element} (same : e.retimed now = later) :
    (g.addElement e).retimed now = (g.retimed now).addElement later := by
  subst same
  unfold addElement
  rw [hasElement_retimed]
  show _ = if g.hasElement e.id then _ else _
  split
  · rfl
  · simp only [retimed, Table.mapValues_insert]; rfl

theorem retimed_append (e : Element) (key : String) (v : Json) :
    (e.append key v).retimed now = (e.retimed now).append key v := by
  simp only [Element.append, Element.retimed]
  split <;> rfl

theorem retimed_appendTo (id key : String) (v : Json) :
    (g.appendTo id key v).retimed now = (g.retimed now).appendTo id key v :=
  retimed_modifyElement id fun e => retimed_append e key v

theorem retimed_connect (before : Instant) (source target kind label : String)
    (properties : List (String × Json)) :
    (g.connect before source target kind label properties).retimed now =
      (g.retimed now).connect now source target kind label properties := by
  simp only [retimed, connect, Table.mapValues_insert, nextConnectionId_mapValues]
  rfl

end Graph
end DiagramText
