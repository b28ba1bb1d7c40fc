import DiagramText.Proofs.Editor.Soundness

/-! Integrity of diagrams from the exchange format. There the keys need not be the ids; that no
connection misses an end is all that is asked for. Removing an element finds its connections by their
ids, so whether a loose end can ever come up is decided by the keys of the connections alone. -/
namespace DiagramText

namespace Table

variable {α : Type}

theorem erase_of_get?_eq_none {t : Table α} {k : String} (absent : t.get? k = none) :
    t.erase k = t := by
  apply ext
  refine List.filter_eq_self.2 fun p hp => ?_
  have other : p.1 ≠ k := by
    rintro rfl
    rw [get?_eq_some_iff.2 hp] at absent
    cases absent
  simpa using other

theorem filter_key {es : List (String × α)} (distinct : (es.map Prod.fst).Nodup) {p : String × α}
    (h : p ∈ es) : (es.filter fun q => q.1 = p.1) = [p] := by
  induction es with
  | nil => cases h
  | cons e es ih =>
    rw [List.map_cons, List.nodup_cons] at distinct
    rcases List.mem_cons.1 h with rfl | later
    · have others : ∀ q ∈ es, ¬ q.1 = p.1 := fun q hq same =>
        distinct.1 (same ▸ List.mem_map_of_mem hq)
      rw [List.filter_cons_of_pos (by simp), List.filter_eq_nil_iff.2 (by simpa using others)]
    · have other : ¬ e.1 = p.1 := fun same => distinct.1 (same ▸ List.mem_map_of_mem later)
      rw [List.filter_cons_of_neg (by simpa using other), ih distinct.2 later]

end Table

/-- What the steps of an editor keep, whatever the keys of the elements are. -/
structure Graph.Intact (g : Graph) : Prop where
  filed : g.Filed
  closed : g.Closed

theorem Graph.dangling_eq_nil_iff {g : Graph} : g.dangling = [] ↔ g.Closed := by
  simp [dangling, Closed]

namespace Editor
open DiagramText.Graph (Filed Closed Intact)

variable {ed : Editor} {now : Instant}

/-! ### Steps -/

theorem intact_addElement (intact : ed.diagram.toGraph.Intact) (e : Element) :
    (ed.addElement now e).editor.diagram.toGraph.Intact := by
  unfold addElement
  split
  · exact intact
  · next free =>
    have new : ed.diagram.toGraph.hasElement e.id = false := Bool.not_eq_true _ ▸ free
    exact ⟨intact.filed, (Graph.Growth.element e .same new).closed intact.closed⟩

theorem intact_updateElement (intact : ed.diagram.toGraph.Intact) (id : String) (p : ElementPatch) :
    (ed.updateElement now id p).editor.diagram.toGraph.Intact := by
  unfold updateElement
  split
  · exact intact
  · have grown := Graph.Growth.change (g := ed.diagram.toGraph) id (p.apply now) .same fun _ => rfl
    exact ⟨intact.filed, grown.closed intact.closed⟩

theorem intact_removeElement (intact : ed.diagram.toGraph.Intact) (id : String) :
    (ed.removeElement now id).editor.diagram.toGraph.Intact := by
  unfold removeElement
  split
  · exact intact
  · constructor
    · exact fun p hp => intact.filed p (not_touches_of_left intact.filed hp).1
    · exact closed_left intact.filed intact.closed id

theorem intact_addConnection (intact : ed.diagram.toGraph.Intact) (c : Connection) :
    (ed.addConnection now c).editor.diagram.toGraph.Intact := by
  unfold addConnection
  split
  · exact intact
  · next allowed =>
    have ends : ed.hasEnds c.source c.target := by simp at allowed; exact allowed.2
    exact ⟨Graph.filed_insertConnection intact.filed c,
      Graph.closed_insertConnection intact.closed ends⟩

theorem intact_updateConnection (intact : ed.diagram.toGraph.Intact) (id : String)
    (p : ConnectionPatch) : (ed.updateConnection now id p).editor.diagram.toGraph.Intact := by
  unfold updateConnection
  split
  · exact intact
  · next c there =>
    split
    · next ends =>
      exact ⟨Graph.filed_modifyConnection intact.filed id fun _ => rfl,
        Graph.closed_modifyConnection intact.closed there ends⟩
    · exact intact

theorem intact_removeConnection (intact : ed.diagram.toGraph.Intact) (id : String) :
    (ed.removeConnection now id).editor.diagram.toGraph.Intact := by
  unfold removeConnection
  split
  · exact intact
  · have fewer : (ed.connections.erase id).entries ⊆ ed.diagram.connections.entries :=
      List.filter_sublist.subset
    exact ⟨fun p hp => intact.filed p (fewer hp),
      Graph.closed_of_connections_subset intact.closed fewer⟩

theorem intact_load (intact : ed.diagram.toGraph.Intact) (text : String) :
    (ed.load now text).editor.diagram.toGraph.Intact := by
  unfold load
  split
  · exact intact
  · next d parsed =>
    obtain ⟨lines, read⟩ := Registry.toGraph_of_parse parsed
    constructor
    · exact read ▸ (Dialect.keyed_read d.dialect now lines).filed
    · exact read ▸ Dialect.closed_read d.dialect now lines

theorem intact_apply (intact : ed.diagram.toGraph.Intact) (edit : Edit) :
    (ed.apply now edit).editor.diagram.toGraph.Intact := by
  cases edit with
  | addElement e => exact intact_addElement intact e
  | updateElement id p => exact intact_updateElement intact id p
  | removeElement id => exact intact_removeElement intact id
  | addConnection c => exact intact_addConnection intact c
  | connect source target kind label => exact intact_addConnection intact _
  | updateConnection id p => exact intact_updateConnection intact id p
  | removeConnection id => exact intact_removeConnection intact id
  | clear => exact ⟨Graph.keyed_empty.filed, Graph.closed_empty⟩
  | load text => exact intact_load intact text

theorem intact_execute (run : List (Instant × Edit)) (intact : ed.diagram.toGraph.Intact) :
    (execute run ed).diagram.toGraph.Intact := by
  induction run generalizing ed with
  | nil => exact intact
  | cons step run ih => exact ih (intact_apply intact step.2)

/-! ### A run that leaves a loose end -/

/-- Takes connections out one by one, each under its key. -/
def removals (now : Instant) (keys : List String) : List (Instant × Edit) :=
  keys.map fun k => (now, .removeConnection k)

theorem connections_removeConnection (now : Instant) (ed : Editor) (k : String) :
    (ed.removeConnection now k).editor.connections = ed.connections.erase k := by
  unfold removeConnection
  split
  · next absent => exact (Table.erase_of_get?_eq_none absent).symm
  · rfl

theorem elements_removeConnection (now : Instant) (ed : Editor) (k : String) :
    (ed.removeConnection now k).editor.elements = ed.elements := by
  unfold removeConnection
  split <;> rfl

theorem execute_append (xs ys : List (Instant × Edit)) (ed : Editor) :
    execute (xs ++ ys) ed = execute ys (execute xs ed) := by
  induction xs generalizing ed with
  | nil => rfl
  | cons x xs ih => exact ih _

theorem elements_removals (now : Instant) (keys : List String) (ed : Editor) :
    (execute (removals now keys) ed).elements = ed.elements := by
  induction keys generalizing ed with
  | nil => rfl
  | cons k keys ih => exact (ih _).trans (elements_removeConnection now ed k)

theorem connections_removals (now : Instant) (keys : List String) (ed : Editor) :
    (execute (removals now keys) ed).connections = keys.foldl Table.erase ed.connections := by
  induction keys generalizing ed with
  | nil => rfl
  | cons k keys ih =>
    refine (ih (ed.removeConnection now k).editor).trans ?_
    rw [connections_removeConnection, List.foldl_cons]

/-- A connection under a foreign key outlives the elements at its ends, once it is alone. -/
theorem dangling_removeElement_of_alone {p : String × Connection}
    (alone : ed.connections.entries = [p]) (misfiled : p.1 ≠ p.2.id)
    (there : ed.elements.contains p.2.source) :
    (ed.removeElement now p.2.source).editor.diagram.dangling = [p.2.id] := by
  obtain ⟨e, found⟩ := Option.isSome_iff_exists.1 there
  have at_ends : ed.diagram.toGraph.connectionsFor p.2.source = [p.2] := by
    have listed : ed.diagram.connections.values = [p.2] := congrArg (List.map Prod.snd) alone
    simp [Graph.connectionsFor, listed, Connection.touches]
  have left : (takeOut [p.2.id] ed.connections).2.entries = [p] := by
    rw [entries_takeOut, alone]
    simp [misfiled]
  have gone : (ed.elements.erase p.2.source).contains p.2.source = false := by
    simp [Table.contains, Table.get?_erase]
  simp only [removeElement, found, carryOut, Diagram.touch, Diagram.recount, Graph.dangling, at_ends,
    List.map_cons, List.map_nil, Table.values, left]
  simp [Graph.joins, Graph.hasElement, gone]

/-- Taking out all the other connections leaves one of them alone. -/
theorem entries_removals_others (now : Instant) {p : String × Connection}
    (hp : p ∈ ed.connections.entries) :
    (execute (removals now (ed.connections.keys.erase p.1)) ed).connections.entries = [p] := by
  rw [connections_removals, Table.entries_foldl_erase, ← Table.filter_key ed.connections.nodup hp]
  apply List.filter_congr
  intro q hq
  have listed : q.1 ∈ ed.connections.keys := List.mem_map_of_mem hq
  have distinct : ed.connections.keys.Nodup := ed.connections.nodup
  simp [distinct.mem_erase_iff, listed]

theorem exists_dangling_of_not_filed (now : Instant) (closed : ed.diagram.toGraph.Closed)
    (misfiled : ¬ ed.diagram.toGraph.Filed) :
    ∃ run, (execute run ed).diagram.dangling ≠ [] := by
  simp only [Filed, Classical.not_forall] at misfiled
  obtain ⟨p, hp, other⟩ := misfiled
  let others := removals now (ed.connections.keys.erase p.1)
  have alone : (execute others ed).connections.entries = [p] := entries_removals_others now hp
  have there : (execute others ed).elements.contains p.2.source := by
    rw [elements_removals]
    exact (Bool.and_eq_true_iff.1 (closed p.2 (Table.mem_values_iff.2 ⟨p, hp, rfl⟩))).1
  refine ⟨others ++ [(now, .removeElement p.2.source)], ?_⟩
  rw [execute_append]
  simp [execute, apply, dangling_removeElement_of_alone alone other there]

/-! ### Diagrams from the exchange format -/

theorem ofDiagram_of_closed {d : Diagram} (closed : d.dangling = []) :
    (ofDiagram d).diagram.toGraph = d.toGraph := by
  simp [ofDiagram, closed, Diagram.recount]

theorem decode_eq_ok_iff {τ : Type} [Json.Document τ] {start : Instant} {t : τ} :
    decode start t = .ok ed ↔
      ∃ d, Diagram.decode start t = some d ∧ d.dangling = [] ∧ ed = ofDiagram d := by
  unfold decode
  cases Diagram.decode start t with
  | none => simp
  | some d =>
    by_cases closed : d.dangling = []
    · simpa [closed] using eq_comm
    · simp [closed]

theorem closed_decode {τ : Type} [Json.Document τ] {start : Instant} {t : τ}
    (accepted : decode start t = .ok ed) : ed.diagram.toGraph.Closed := by
  obtain ⟨d, -, closed, rfl⟩ := decode_eq_ok_iff.1 accepted
  rw [ofDiagram_of_closed closed]
  exact Graph.dangling_eq_nil_iff.1 closed

/-- An editor on a diagram that was accepted stays free of loose ends, whatever it is asked to do, if
and only if every connection came under its own id. -/
theorem dangling_execute_decode_iff {τ : Type} [Json.Document τ] {start : Instant} {t : τ}
    (accepted : decode start t = .ok ed) :
    (∀ run, (execute run ed).diagram.dangling = []) ↔ ed.diagram.toGraph.Filed := by
  have closed := closed_decode accepted
  constructor
  · intro never
    refine Classical.byContradiction fun misfiled => ?_
    obtain ⟨run, loose⟩ := exists_dangling_of_not_filed start closed misfiled
    exact loose (never run)
  · exact fun filed run => Graph.dangling_eq_nil_iff.2 (intact_execute run ⟨filed, closed⟩).closed

/-- Two elements, and a connection between them under a key and with an id. -/
def twoJoined (key id : String) : Json :=
  let now := Instant.epoch
  let node (n : String) := (n, (Element.node now n n).toJson)
  let join := (Connection.create now id "A" "B" "default").toJson
  .obj [("diagram_type", .str "flowchart"), ("elements", .obj [node "A", node "B"]),
    ("connections", .obj [(key, join)])]

def twoJoinedDiagram (key id : String) : Diagram :=
  let now := Instant.epoch
  { Diagram.create now .flowchart with
    elements := .ofList [("A", .node now "A" "A"), ("B", .node now "B" "B")]
    connections := .ofList [(key, .create now id "A" "B" "default")] }

theorem dangling_execute_decode_iff_sample : ∃ ed, decode .epoch (twoJoined "c" "c") = .ok ed ∧
    ed.diagram.toGraph.Filed ∧
      ((∀ run, (execute run ed).diagram.dangling = []) ↔ ed.diagram.toGraph.Filed) := by
  have accepted : decode .epoch (twoJoined "c" "c") = .ok (ofDiagram (twoJoinedDiagram "c" "c")) :=
    decode_eq_ok_iff.2 ⟨_, by decide +kernel, by decide +kernel, rfl⟩
  exact ⟨_, accepted, by decide +kernel, dangling_execute_decode_iff accepted⟩

/-- A connection `c` under the key `k` stays when the element at its start goes. -/
theorem dangling_removeElement_misfiled : ∃ ed, decode .epoch (twoJoined "k" "c") = .ok ed ∧
    ed.diagram.dangling = [] ∧
      (execute [(.epoch, .removeElement "A")] ed).diagram.dangling = ["c"] := by
  have accepted : decode .epoch (twoJoined "k" "c") = .ok (ofDiagram (twoJoinedDiagram "k" "c")) :=
    decode_eq_ok_iff.2 ⟨_, by decide +kernel, by decide +kernel, rfl⟩
  exact ⟨_, accepted, by decide +kernel, by decide +kernel⟩

end Editor
end DiagramText
