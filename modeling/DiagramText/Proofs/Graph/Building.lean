import DiagramText.Proofs.Graph.Growth

/-! Building graphs step by step: what elements keep of their properties when one is set, what a table
holds after its last element is changed, and what a run of connections adds. -/
namespace DiagramText

namespace Table

variable {α : Type}

/-- What is there after a change was there before, or is what was under the key and is changed. -/
theorem mem_values_modify {t : Table α} {k : String} {f : α → α} {v : α} (h : v ∈ (t.modify k f).values) :
    ∃ p ∈ t.entries, v = p.2 ∨ (p.1 = k ∧ v = f p.2) := by
  obtain ⟨q, there, rfl⟩ := mem_values_iff.1 h
  obtain ⟨p, among, rfl⟩ := List.mem_map.1 there
  refine ⟨p, among, ?_⟩
  by_cases own : p.1 = k
  · exact .inr ⟨own, if_pos own⟩
  · exact .inl (if_neg own)

/-- What is put in where it is already changes nothing. -/
theorem insert_of_get? {t : Table α} {k : String} {v : α} (there : t.get? k = some v) :
    t.insert k v = t := by
  obtain ⟨es, distinct⟩ := t
  apply ext
  rw [entries_insert]
  replace there : es.lookup k = some v := there
  induction es with
  | nil => cases there
  | cons e es ih =>
    obtain ⟨l, w⟩ := e
    rw [List.map_cons, List.nodup_cons] at distinct
    rw [lookup_cons] at there
    by_cases same : k = l
    · rw [if_pos same] at there
      obtain rfl := Option.some.inj there
      rw [put, if_pos same.symm, same]
    · rw [if_neg same] at there
      rw [put, if_neg (Ne.symm same), ih distinct.2 there]

/-- A table is put together again from its entries. -/
theorem ofList_entries (t : Table α) : ofList t.entries = t := by
  have added (es : List (String × α)) (u : Table α) (fresh : (u.entries ++ es).map Prod.fst |>.Nodup) :
      (es.foldl (fun t p => t.insert p.1 p.2) u).entries = u.entries ++ es := by
    induction es generalizing u with
    | nil => simp
    | cons e es ih =>
      obtain ⟨k, v⟩ := e
      have new : k ∉ u.entries.map Prod.fst := by
        rw [List.map_append, List.map_cons, List.nodup_append] at fresh
        exact fun h => fresh.2.2 k h k (List.mem_cons_self ..) rfl
      have put : (u.insert k v).entries = u.entries ++ [(k, v)] := put_of_not_mem new v
      rw [List.foldl_cons, ih _ (by rw [put, List.append_assoc]; exact fresh), put, List.append_assoc,
        List.singleton_append]
  exact ext (added t.entries ∅ (by simpa using t.nodup))

/-- A value that was put in and is changed was changed and put in. -/
theorem modify_insert (t : Table α) (k : String) (v : α) (f : α → α) :
    (t.insert k v).modify k f = t.insert k (f v) := by
  obtain ⟨es, distinct⟩ := t
  apply ext
  simp only [entries_modify, entries_insert]
  induction es with
  | nil => simp [put]
  | cons e es ih =>
    obtain ⟨l, w⟩ := e
    rw [List.map_cons, List.nodup_cons] at distinct
    by_cases same : l = k
    · subst same
      rw [put, if_pos rfl, put, if_pos rfl, List.map_cons, if_pos rfl, map_of_not_mem distinct.1]
    · rw [put, if_neg same, put, if_neg same, List.map_cons, if_neg same, ih distinct.2]

end Table

namespace Element

variable {e : Element} {key other : String} {v : Json} {s : String}

@[simp] theorem property?_setProperty (e : Element) (key s : String) :
    (e.setProperty key (.str s)).property? key = some s := by
  rw [property?, setProperty, Table.get?_insert, if_pos rfl]
  rfl

theorem property?_setProperty_of_ne (apart : other ≠ key) :
    (e.setProperty key v).property? other = e.property? other := by
  simp only [property?, setProperty, Table.get?_insert, if_neg apart]

theorem listed_setProperty_of_ne (apart : other ≠ key) :
    (e.setProperty key v).listed other = e.listed other := by
  simp only [listed, setProperty, Table.get?_insert, if_neg apart]

theorem setProperty_of_get? (there : e.properties.get? key = some v) : e.setProperty key v = e := by
  rw [setProperty, Table.insert_of_get? there]

theorem property?_append_of_ne (apart : other ≠ key) :
    (e.append key v).property? other = e.property? other := by
  unfold append
  split <;> exact property?_setProperty_of_ne apart

theorem listed_append_of_ne (apart : other ≠ key) :
    (e.append key v).listed other = e.listed other := by
  unfold append
  split <;> exact listed_setProperty_of_ne apart

theorem append_label : (e.append key v).label = e.label := by
  unfold append
  split <;> rfl

theorem append_kind : (e.append key v).kind = e.kind := by
  unfold append
  split <;> rfl

/-- What is added to a list property is listed last, whatever was there. -/
@[simp] theorem listed_append (e : Element) (key s : String) :
    (e.append key (.str s)).listed key = e.listed key ++ [s] := by
  cases found : e.properties.get? key with
  | none => simp [append, found, listed, setProperty, Table.get?_insert, Json.strings, Json.string?]
  | some j =>
    cases j <;>
      simp [append, found, listed, setProperty, Table.get?_insert, Json.strings, Json.string?]

theorem append_style : (e.append key v).style = e.style := by
  unfold append
  split <;> rfl

/-- A list of strings with one more at the end. -/
theorem append_ofStrings {listed : List String} (there : e.properties.get? key = some (.ofStrings listed))
    (s : String) : e.append key (.str s) = e.setProperty key (.ofStrings (listed ++ [s])) := by
  unfold append
  rw [there]
  simp [Json.ofStrings]

end Element

/-- What is drawn of a connection. -/
def Connection.drawn (c : Connection) : String × String × String × String :=
  (c.source, c.target, c.kind, c.label)

/-- A trimmed label is a label unless it is empty. -/
theorem Connection.hasLabel_iff {c : Connection} (tight : Text.trimmed c.label = c.label) :
    c.hasLabel ↔ c.label ≠ "" := by
  rw [Connection.hasLabel, Bool.not_eq_true', ← Bool.not_eq_true, Text.isBlankText_of_trimmed tight]

namespace Graph

variable {g : Graph} {id : String} {make : Nat → Element}

/-- The graph with an element under an id, at the end when the id is new. -/
def withElement (g : Graph) (id : String) (e : Element) : Graph :=
  { g with elements := g.elements.insert id e }

theorem hasElement_eq_false_iff : g.hasElement id = false ↔ id ∉ g.elements.keys := by
  rw [← Bool.not_eq_true, hasElement_iff]

theorem ensure_of_hasElement (there : g.hasElement id) : g.ensure id make = g := if_pos there

theorem ensure_of_fresh (fresh : id ∉ g.elements.keys) :
    g.ensure id make = g.withElement id (make g.elements.size) := by
  rw [ensure, hasElement_eq_false_iff.2 fresh, if_neg Bool.false_ne_true, withElement]

theorem modifyElement_withElement (e : Element) (f : Element → Element) :
    (g.withElement id e).modifyElement id f = g.withElement id (f e) := by
  rw [modifyElement, withElement, withElement, Table.modify_insert]

theorem modifyElement_eq_self {f : Element → Element} (same : ∀ e, f e = e) : g.modifyElement id f = g := by
  have kept : g.elements.modify id f = g.elements := by
    apply Table.ext
    simp [same]
  rw [modifyElement, kept]

theorem hasElement_withElement (e : Element) : (g.withElement id e).hasElement id := by
  rw [hasElement_iff, withElement, Table.keys_insert]
  split
  · assumption
  · simp

theorem values_withElement (fresh : id ∉ g.elements.keys) (e : Element) :
    (g.withElement id e).elements.values = g.elements.values ++ [e] :=
  Table.values_insert_of_not_mem fresh e

theorem keys_withElement (fresh : id ∉ g.elements.keys) (e : Element) :
    (g.withElement id e).elements.keys = g.elements.keys ++ [id] := by
  rw [withElement, Table.keys_insert, if_neg fresh]

theorem entries_withElement (fresh : id ∉ g.elements.keys) (e : Element) :
    (g.withElement id e).elements.entries = g.elements.entries ++ [(id, e)] :=
  Table.put_of_not_mem fresh e

/-! ### Runs of connections -/

/-- What a connection is made from. -/
structure Joint where
  source : String
  target : String
  kind : String
  label : String
  properties : List (String × Json)

/-- The connection that is made under an id. -/
def Joint.link (now : Instant) (id : String) (j : Joint) : Connection :=
  linkAs now id j.source j.target j.kind j.label j.properties

def connectAll (now : Instant) (g : Graph) (joints : List Joint) : Graph :=
  joints.foldl (fun g j => g.connect now j.source j.target j.kind j.label j.properties) g

theorem elements_connectAll (now : Instant) (g : Graph) (joints : List Joint) :
    (g.connectAll now joints).elements = g.elements := by
  induction joints generalizing g with
  | nil => rfl
  | cons j joints ih => exact ih (g.connect now j.source j.target j.kind j.label j.properties)

/-- Elements and connections are added in either order. -/
theorem connect_ensure (now : Instant) (g : Graph) (j : Joint) :
    (g.ensure id make).connect now j.source j.target j.kind j.label j.properties =
      (g.connect now j.source j.target j.kind j.label j.properties).ensure id make := by
  show _ = if g.hasElement id then _ else _
  unfold ensure
  split <;> rfl

theorem connectAll_ensure (now : Instant) (g : Graph) (joints : List Joint) :
    (g.ensure id make).connectAll now joints = (g.connectAll now joints).ensure id make := by
  induction joints generalizing g with
  | nil => rfl
  | cons j joints ih =>
    rw [connectAll, List.foldl_cons, connect_ensure]
    exact ih _

/-- Connections are added in their order, as far as one looks at what they are made from. -/
theorem Numbered.values_connectAll {α β : Type} (now : Instant) (numbered : g.Numbered)
    {view : Connection → β} {joint : α → Joint} {image : α → β} {as : List α}
    (seen : ∀ a ∈ as, ∀ id, view ((joint a).link now id) = image a) :
    (g.connectAll now (as.map joint)).connections.values.map view =
      g.connections.values.map view ++ as.map image := by
  induction as generalizing g with
  | nil => simp [connectAll]
  | cons a as ih =>
    rw [List.forall_mem_cons] at seen
    let j := joint a
    have added := numbered.entries_connect now j.source j.target j.kind j.label j.properties
    have values : (g.connect now j.source j.target j.kind j.label j.properties).connections.values.map
        view = g.connections.values.map view ++ [image a] := by
      rw [Table.values, added, List.map_append, List.map_append, List.map_singleton, List.map_singleton,
        Table.values]
      exact congrArg (fun b => g.connections.values.map view ++ [b]) (seen.1 _)
    have next := ih (numbered.connect now j.source j.target j.kind j.label j.properties) seen.2
    rw [values] at next
    rw [List.map_cons, List.map_cons, List.append_cons]
    exact next

/-! ### Runs of lines -/

section Lines

variable {D β γ : Type} {step : D → String → D} {start : Graph → D} {now : Instant}

/-- Blocks of lines that each add an element under a new id, one after the other. -/
theorem foldl_blocks {lines : Element → List String} {view : Element → β} {es : List Element}
    (block : ∀ (g : Graph), ∀ e ∈ es, e.id ∉ g.elements.keys → ∃ e', view e' = view e ∧
      (lines e).foldl step (start g) = start (g.withElement e.id e'))
    (fresh : ∀ e ∈ es, e.id ∉ g.elements.keys) (distinct : (es.map (·.id)).Nodup) :
    ∃ h : Graph, (es.flatMap lines).foldl step (start g) = start h ∧
      h.connections = g.connections ∧ h.elements.keys = g.elements.keys ++ es.map (·.id) ∧
      h.elements.values.map view = g.elements.values.map view ++ es.map view := by
  induction es generalizing g with
  | nil => exact ⟨g, rfl, rfl, by simp, by simp⟩
  | cons e es ih =>
    rw [List.forall_mem_cons] at fresh
    rw [List.map_cons, List.nodup_cons] at distinct
    obtain ⟨e', same, first⟩ := block g e (List.mem_cons_self ..) fresh.1
    have keys := keys_withElement fresh.1 e'
    have stillFresh : ∀ x ∈ es, x.id ∉ (g.withElement e.id e').elements.keys := by
      intro x h
      rw [keys, List.mem_append, List.mem_singleton, not_or]
      exact ⟨fresh.2 x h, fun own => distinct.1 (own ▸ List.mem_map_of_mem h)⟩
    obtain ⟨h, others, connections, laterKeys, values⟩ :=
      ih (fun g x there => block g x (List.mem_cons_of_mem _ there)) stillFresh distinct.2
    refine ⟨h, ?_, connections, ?_, ?_⟩
    · rw [List.flatMap_cons, List.foldl_append, first, others]
    · rw [laterKeys, keys, List.append_assoc, List.map_cons, List.singleton_append]
    · rw [values, values_withElement fresh.1, List.map_append, List.map_singleton, same,
        List.append_assoc, List.map_cons, List.singleton_append]

/-- Lines that each connect two elements that are there, one after the other. -/
theorem foldl_joints {line : Connection → String} {joint : Connection → Joint} {cs : List Connection}
    (each : ∀ (g : Graph), ∀ c ∈ cs, g.joins c →
      step (start g) (line c) = start (g.connectAll now [joint c]))
    (joined : ∀ c ∈ cs, g.joins c) :
    (cs.map line).foldl step (start g) = start (g.connectAll now (cs.map joint)) := by
  induction cs generalizing g with
  | nil => rfl
  | cons c cs ih =>
    rw [List.forall_mem_cons] at joined
    have still : ∀ d ∈ cs, (g.connectAll now [joint c]).joins d := by
      intro d h
      rw [joins, hasElement, hasElement, elements_connectAll]
      exact joined.2 d h
    rw [List.map_cons, List.foldl_cons, each g c (List.mem_cons_self ..) joined.1,
      ih (fun g d there => each g d (List.mem_cons_of_mem _ there)) still]
    rfl

/-- A graph is built again from the lines of its elements and then those of its connections. -/
theorem foldl_rebuild {lines : Element → List String} {view : Element → β} {line : Connection → String}
    {joint : Connection → Joint} {tie : Connection → γ}
    (keyed : ∀ p ∈ g.elements.entries, p.1 = p.2.id) (closed : g.Closed)
    (block : ∀ (h : Graph), ∀ e ∈ g.elements.values, e.id ∉ h.elements.keys → ∃ e', view e' = view e ∧
      (lines e).foldl step (start h) = start (h.withElement e.id e'))
    (each : ∀ (h : Graph), ∀ c ∈ g.connections.values, h.joins c →
      step (start h) (line c) = start (h.connectAll now [joint c]))
    (seen : ∀ c ∈ g.connections.values, ∀ id, tie ((joint c).link now id) = tie c) :
    ∃ h : Graph, (g.elements.values.flatMap lines ++ g.connections.values.map line).foldl step
        (start .empty) = start h ∧ h.elements.values.map view = g.elements.values.map view ∧
      h.connections.values.map tie = g.connections.values.map tie := by
  have ids : g.elements.values.map (·.id) = g.elements.keys := by
    rw [Table.values, Table.keys, List.map_map]
    exact List.map_congr_left fun p h => (keyed p h).symm
  have fresh : ∀ e ∈ g.elements.values, e.id ∉ empty.elements.keys := by simp [empty, Table.keys]
  obtain ⟨h, elements, connections, keys, values⟩ := foldl_blocks block fresh (ids ▸ g.elements.nodup)
  have joined : ∀ c ∈ g.connections.values, h.joins c := by
    intro c there
    refine joins_mono (fun id has => ?_) (closed c there)
    rw [hasElement_iff] at has ⊢
    rw [keys, ids]
    exact List.mem_append_right _ has
  have numbered : h.Numbered := by
    unfold Numbered
    rw [connections]
    rfl
  refine ⟨h.connectAll now (g.connections.values.map joint), ?_, ?_, ?_⟩
  · rw [List.foldl_append, elements, foldl_joints each joined]
  · rw [elements_connectAll, values]
    rfl
  · rw [numbered.values_connectAll now seen, connections]
    rfl

end Lines

end Graph
end DiagramText
