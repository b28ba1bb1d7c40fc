import DiagramText.Editor.Basic
import DiagramText.Proofs.Reading
import DiagramText.Proofs.Registry

/-! Soundness of editing. A diagram is sound when all of it is stored under its own ids, no
connection misses an end, and the counts are right. A new editor is sound, every step keeps it so,
and so does every run. -/
namespace DiagramText

namespace Graph

variable {g h : Graph}

/-- Every connection is stored under its own id. -/
def Filed (g : Graph) : Prop := ∀ p ∈ g.connections.entries, p.1 = p.2.id

instance (g : Graph) : Decidable g.Filed :=
  inferInstanceAs (Decidable (∀ p ∈ g.connections.entries, p.1 = p.2.id))

theorem Keyed.filed (keyed : Keyed g) : Filed g := keyed.connections

theorem Keyed.mono (keyed : Keyed g) (elements : h.elements.entries ⊆ g.elements.entries)
    (connections : h.connections.entries ⊆ g.connections.entries) : Keyed h :=
  ⟨fun p hp => keyed.elements p (elements hp), fun p hp => keyed.connections p (connections hp)⟩

/-! ### Changes that editors make and readers do not -/

theorem filed_insertConnection (filed : Filed g) (c : Connection) :
    Filed { g with connections := g.connections.insert c.id c } := by
  intro p hp
  rcases Table.mem_put hp with rfl | hp
  · rfl
  · exact filed p hp

theorem closed_insertConnection (closed : Closed g) {c : Connection} (joined : g.joins c) :
    Closed { g with connections := g.connections.insert c.id c } := by
  intro x hx
  rcases Table.mem_values_insert hx with rfl | hx
  · exact joined
  · exact closed x hx

theorem filed_modifyConnection (filed : Filed g) (id : String) {f : Connection → Connection}
    (keeps : ∀ c, (f c).id = c.id) : Filed { g with connections := g.connections.modify id f } := by
  intro p hp
  obtain ⟨⟨l, c⟩, hc, rfl⟩ := List.mem_map.1 hp
  have own : l = c.id := filed _ hc
  by_cases hl : l = id
  · simp only [hl, if_true, keeps]
    exact hl ▸ own
  · simpa only [hl, if_false] using own

/-- Only the connection under the id has to be looked at, and a table has one of them at most. -/
theorem closed_modifyConnection (closed : Closed g) {id : String} {f : Connection → Connection}
    {c : Connection} (there : g.connections.get? id = some c) (joined : g.joins (f c)) :
    Closed { g with connections := g.connections.modify id f } := by
  intro x hx
  obtain ⟨p, hp, rfl⟩ := Table.mem_values_iff.1 hx
  obtain ⟨⟨l, y⟩, hy, rfl⟩ := List.mem_map.1 hp
  by_cases hl : l = id
  · have only : y = c := by
      rw [← hl, Table.get?_eq_some_iff.2 hy] at there
      exact Option.some.inj there
    simp only [hl, if_true, only]
    exact joined
  · simp only [hl, if_false]
    exact closed y (Table.mem_values_iff.2 ⟨_, hy, rfl⟩)

theorem closed_of_connections_subset (closed : Closed g) {t : Table Connection}
    (fewer : t.entries ⊆ g.connections.entries) : Closed { g with connections := t } := by
  intro c hc
  obtain ⟨p, hp, rfl⟩ := Table.mem_values_iff.1 hc
  exact closed p.2 (Table.mem_values_iff.2 ⟨p, fewer hp, rfl⟩)

end Graph

/-- Everything is stored under its own id, no connection misses an end, and the counts are right. -/
structure Diagram.Sound (d : Diagram) : Prop where
  keyed : d.toGraph.Keyed
  closed : d.toGraph.Closed
  elementCount : d.metadata.elementCount = d.elements.size
  connectionCount : d.metadata.connectionCount = d.connections.size

theorem Diagram.sound_touch {d : Diagram} (now : Instant) (keyed : d.toGraph.Keyed)
    (closed : d.toGraph.Closed) : (d.touch now).Sound := ⟨keyed, closed, rfl, rfl⟩

namespace Editor

variable {ed : Editor} {now : Instant}

theorem sound_carryOut {α : Type} {g : Graph} (keyed : g.Keyed) (closed : g.Closed) (answer : α)
    (events : List Event) : (ed.carryOut now g answer events).editor.diagram.Sound :=
  Diagram.sound_touch now keyed closed

/-! ### Steps -/

theorem sound_addElement (sound : ed.diagram.Sound) (e : Element) :
    (ed.addElement now e).editor.diagram.Sound := by
  unfold addElement
  split
  · exact sound
  · next free =>
    have new : ed.diagram.toGraph.hasElement e.id = false := Bool.not_eq_true _ ▸ free
    have grown := Graph.Growth.element e .same new
    exact sound_carryOut (grown.keyed sound.keyed) (grown.closed sound.closed) ..

theorem sound_updateElement (sound : ed.diagram.Sound) (id : String) (p : ElementPatch) :
    (ed.updateElement now id p).editor.diagram.Sound := by
  unfold updateElement
  split
  · exact sound
  · have grown := Graph.Growth.change (g := ed.diagram.toGraph) id (p.apply now) .same fun _ => rfl
    exact sound_carryOut (grown.keyed sound.keyed) (grown.closed sound.closed) ..

theorem snd_takeOut (ids : List String) (t : Table Connection) :
    (takeOut ids t).2 = ids.foldl Table.erase t := by
  induction ids generalizing t with
  | nil => rfl
  | cons id ids ih => exact ih (t.erase id)

theorem entries_takeOut (ids : List String) (t : Table Connection) :
    (takeOut ids t).2.entries = t.entries.filter fun p => p.1 ∉ ids := by
  rw [snd_takeOut, Table.entries_foldl_erase]

/-- What is left after the connections at an element have been taken out by their ids. -/
theorem not_touches_of_left (filed : ed.diagram.toGraph.Filed) {id : String} {p : String × Connection}
    (left : p ∈ (takeOut ((ed.diagram.toGraph.connectionsFor id).map (·.id)) ed.connections).2.entries) :
    p ∈ ed.connections.entries ∧ p.2.touches id = false := by
  rw [entries_takeOut, List.mem_filter] at left
  refine ⟨left.1, ?_⟩
  rw [← Bool.not_eq_true]
  intro touches
  have listed : p.2.id ∈ (ed.diagram.toGraph.connectionsFor id).map (·.id) :=
    List.mem_map_of_mem (List.mem_filter.2 ⟨Table.mem_values_iff.2 ⟨p, left.1, rfl⟩, touches⟩)
  rw [← filed p left.1] at listed
  simp [listed] at left

/-- An element goes together with the connections at it. -/
theorem closed_left (filed : ed.diagram.toGraph.Filed) (closed : ed.diagram.toGraph.Closed)
    (id : String) : Graph.Closed { ed.diagram.toGraph with
      elements := ed.elements.erase id
      connections :=
        (takeOut ((ed.diagram.toGraph.connectionsFor id).map (·.id)) ed.connections).2 } := by
  intro c hc
  obtain ⟨p, hp, rfl⟩ := Table.mem_values_iff.1 hc
  obtain ⟨there, apart⟩ := not_touches_of_left filed hp
  have joined := closed p.2 (Table.mem_values_iff.2 ⟨p, there, rfl⟩)
  simp only [Connection.touches, Bool.or_eq_false_iff, decide_eq_false_iff_not] at apart
  simp only [Graph.joins, Graph.hasElement, Bool.and_eq_true] at joined ⊢
  exact ⟨Table.contains_erase_of_ne apart.1 joined.1, Table.contains_erase_of_ne apart.2 joined.2⟩

theorem sound_removeElement (sound : ed.diagram.Sound) (id : String) :
    (ed.removeElement now id).editor.diagram.Sound := by
  unfold removeElement
  split
  · exact sound
  · apply sound_carryOut
    · exact sound.keyed.mono List.filter_sublist.subset
        fun p hp => (not_touches_of_left sound.keyed.filed hp).1
    · exact closed_left sound.keyed.filed sound.closed id

theorem sound_addConnection (sound : ed.diagram.Sound) (c : Connection) :
    (ed.addConnection now c).editor.diagram.Sound := by
  unfold addConnection
  split
  · exact sound
  · next allowed =>
    have ends : ed.hasEnds c.source c.target := by simp at allowed; exact allowed.2
    apply sound_carryOut
    · exact ⟨sound.keyed.elements, Graph.filed_insertConnection sound.keyed.filed c⟩
    · exact Graph.closed_insertConnection sound.closed ends

theorem sound_connect (sound : ed.diagram.Sound) (source target kind : String)
    (label : Option String) : (ed.connect now source target kind label).editor.diagram.Sound :=
  sound_addConnection sound _

theorem sound_updateConnection (sound : ed.diagram.Sound) (id : String) (p : ConnectionPatch) :
    (ed.updateConnection now id p).editor.diagram.Sound := by
  unfold updateConnection
  split
  · exact sound
  · next c there =>
    split
    · next ends =>
      apply sound_carryOut
      · exact ⟨sound.keyed.elements, Graph.filed_modifyConnection sound.keyed.filed id fun _ => rfl⟩
      · exact Graph.closed_modifyConnection sound.closed there ends
    · exact sound

theorem sound_removeConnection (sound : ed.diagram.Sound) (id : String) :
    (ed.removeConnection now id).editor.diagram.Sound := by
  unfold removeConnection
  split
  · exact sound
  · have fewer : (ed.connections.erase id).entries ⊆ ed.diagram.connections.entries :=
      List.filter_sublist.subset
    apply sound_carryOut
    · exact sound.keyed.mono (List.Subset.refl _) fewer
    · exact Graph.closed_of_connections_subset sound.closed fewer

theorem sound_clear : (ed.clear now).editor.diagram.Sound :=
  sound_carryOut Graph.keyed_empty Graph.closed_empty ..

theorem sound_load (sound : ed.diagram.Sound) (text : String) :
    (ed.load now text).editor.diagram.Sound := by
  unfold load
  split
  · exact sound
  · next d parsed =>
    obtain ⟨lines, read⟩ := Registry.toGraph_of_parse parsed
    apply Diagram.sound_touch
    · exact read ▸ Dialect.keyed_read d.dialect now lines
    · exact read ▸ Dialect.closed_read d.dialect now lines

theorem sound_apply (sound : ed.diagram.Sound) (edit : Edit) :
    (ed.apply now edit).editor.diagram.Sound := by
  cases edit with
  | addElement e => exact sound_addElement sound e
  | updateElement id p => exact sound_updateElement sound id p
  | removeElement id => exact sound_removeElement sound id
  | addConnection c => exact sound_addConnection sound c
  | connect source target kind label => exact sound_connect sound source target kind label
  | updateConnection id p => exact sound_updateConnection sound id p
  | removeConnection id => exact sound_removeConnection sound id
  | clear => exact sound_clear
  | load text => exact sound_load sound text

/-! ### Runs -/

theorem sound_execute (run : List (Instant × Edit)) (sound : ed.diagram.Sound) :
    (execute run ed).diagram.Sound := by
  induction run generalizing ed with
  | nil => exact sound
  | cons step run ih => exact ih (sound_apply sound step.2)

theorem sound_create (now : Instant) (t : Dialect) : (create now t).diagram.Sound :=
  ⟨Graph.keyed_empty, Graph.closed_empty, rfl, rfl⟩

/-- Every state that an editor reaches from a new diagram is sound, whoever observes it. -/
theorem sound_execute_create (start : Instant) (t : Dialect) (observers : List Observer)
    (run : List (Instant × Edit)) :
    (execute run { create start t with observers }).diagram.Sound :=
  sound_execute run (sound_create start t)

end Editor
end DiagramText
