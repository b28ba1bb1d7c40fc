import DiagramText.Proofs.Editor.Refusal

/-! Connecting. The id of a connection that is made comes from a search for a free number, which ends
whatever the keys of the table are. Under that id a graph takes the connection behind all others, and an
editor does the same for just the elements that are there. -/
namespace DiagramText.Editor

variable {ed : Editor} {now : Instant} {source target kind id : String} {label : Option String}

/-- Whether an editor connects is settled by the ends alone. -/
theorem isSome_answer_connect_iff : (ed.connect now source target kind label).answer.isSome ↔
    source ∈ ed.elements.keys ∧ target ∈ ed.elements.keys := by
  have refused : (ed.connect now source target kind label).answer.isSome = false ↔
      ed.MissesEnd source target := answer_apply_eq_false_iff (.connect source target kind label)
  rw [← Bool.not_eq_false, refused, MissesEnd, not_or, not_not, not_not]

/-- A connection that is accepted is put in under its id. -/
theorem connections_addConnection {c : Connection} (accepted : (ed.addConnection now c).answer = true) :
    (ed.addConnection now c).editor.connections = ed.connections.insert c.id c := by
  unfold addConnection at accepted ⊢
  by_cases stopped : (ed.connections.contains c.id || !ed.hasEnds c.source c.target) = true
  · rw [if_pos stopped] at accepted
    cases accepted
  · rw [if_neg stopped]
    rfl

/-- An editor that connects answers with the fresh id, and its graph is connected. -/
theorem connect_of_answer (answer : (ed.connect now source target kind label).answer = some id) :
    id = nextConnectionId ed.connections ∧
      (ed.connect now source target kind label).editor.connections =
        (ed.diagram.toGraph.connect now source target kind (label.getD "")).connections := by
  let c := { Connection.create now (nextConnectionId ed.connections) source target kind with
    label := label.getD "" }
  obtain ⟨accepted, same⟩ : (ed.addConnection now c).answer = true ∧
      some (nextConnectionId ed.connections) = some id := Option.ite_none_right_eq_some.1 answer
  exact ⟨(Option.some.inj same).symm, connections_addConnection accepted⟩

/-- Whatever the keys are, the search for a fresh id has one course; it ends after at most one probe more
than there are keys, at the first number behind theirs that is free. So a connection that is made goes
behind all others and takes the place of none, and an editor connects just the elements that are there,
under an id that is new. -/
theorem connect_under_fresh_id (now : Instant) (source target kind : String) :
    (∀ t : Table Connection, ∃ probes ≤ t.size + 1, ∃ found,
      (∀ p k, IdSearch t (t.size + 1) p k ↔ p = probes ∧ k = found) ∧
      nextConnectionId t = connectionId found ∧
      IsLeast {k | t.size + 1 ≤ k ∧ connectionId k ∉ t.keys} found) ∧
    (∀ (g : Graph) (label : String) (properties : List (String × Json)),
      nextConnectionId g.connections ∉ g.connections.keys ∧
      (g.connect now source target kind label properties).connections.entries =
        g.connections.entries ++ [(nextConnectionId g.connections,
          Graph.linkAs now (nextConnectionId g.connections) source target kind label properties)]) ∧
    ∀ (ed : Editor) (label : Option String),
      ((ed.connect now source target kind label).answer.isSome ↔
        source ∈ ed.elements.keys ∧ target ∈ ed.elements.keys) ∧
      ∀ id ∈ (ed.connect now source target kind label).answer,
        id = nextConnectionId ed.connections ∧ id ∉ ed.connections.keys ∧
        (ed.connect now source target kind label).editor.connections.entries =
          ed.connections.entries ++ [(id, Graph.linkAs now id source target kind (label.getD "") [])] := by
  refine ⟨fun t => ?_, fun g label properties => ⟨nextConnectionId_not_mem _, g.entries_connect ..⟩,
    fun ed label => ⟨isSome_answer_connect_iff, fun id answer => ?_⟩⟩
  · obtain ⟨probes, bound, found, search⟩ := exists_search t (t.size + 1)
    refine ⟨probes, bound, found, fun p k => ⟨fun other => other.unique search, ?_⟩,
      nextConnectionId_of_search search, search.isLeast⟩
    rintro ⟨rfl, rfl⟩
    exact search
  · obtain ⟨rfl, connected⟩ := connect_of_answer answer
    rw [connected]
    exact ⟨rfl, nextConnectionId_not_mem _, Graph.entries_connect ..⟩

/-- Two connections, under the two numbers that a search tries first. -/
def crowded : Editor :=
  execute [(.epoch, .addElement (.node .epoch "A" "A")), (.epoch, .addElement (.node .epoch "B" "B")),
    (.epoch, .addConnection (.create .epoch "conn_3" "A" "B" "default")),
    (.epoch, .addConnection (.create .epoch "conn_4" "B" "A" "default"))] (create .epoch .flowchart)

/-- The search takes as many probes as it may. -/
theorem connect_under_fresh_id_crowded :
    (crowded.connections.size = 2 ∧ IdSearch crowded.connections 3 3 5 ∧
      nextConnectionId crowded.connections = "conn_5") ∧
    (crowded.connect .epoch "A" "B" "default" none).answer = some "conn_5" ∧
    (crowded.connect .epoch "A" "B" "default" none).editor.connections.keys =
      ["conn_3", "conn_4", "conn_5"] ∧
    (crowded.connect .epoch "A" "C" "default" none).answer = none := by
  have two : crowded.connections.size = 2 := by decide +kernel
  have search : IdSearch crowded.connections 3 3 5 :=
    .taken (by decide +kernel) (.taken (by decide +kernel) (.free (by decide +kernel)))
  have there : "A" ∈ crowded.elements.keys ∧ "B" ∈ crowded.elements.keys := by decide +kernel
  have absent : ¬ ("A" ∈ crowded.elements.keys ∧ "C" ∈ crowded.elements.keys) := by decide +kernel
  have keys : crowded.connections.keys = ["conn_3", "conn_4"] := by decide +kernel
  obtain ⟨searches, -, editors⟩ := connect_under_fresh_id .epoch "A" "B" "default"
  obtain ⟨probes, -, found, course, fresh, -⟩ := searches crowded.connections
  obtain ⟨-, rfl⟩ := (course 3 5).1 (two ▸ search)
  have fifth : nextConnectionId crowded.connections = "conn_5" := fresh
  obtain ⟨id, answer⟩ := Option.isSome_iff_exists.1 ((editors crowded none).1.2 there)
  obtain ⟨rfl, -, entries⟩ := (editors crowded none).2 id answer
  refine ⟨⟨two, search, fifth⟩, fifth ▸ answer, ?_, ?_⟩
  · rw [Table.keys, entries, List.map_append, ← Table.keys, keys, fifth]
    rfl
  · rw [← Option.not_isSome_iff_eq_none]
    exact mt ((connect_under_fresh_id .epoch "A" "C" "default").2.2 crowded none).1.1 absent

end DiagramText.Editor
