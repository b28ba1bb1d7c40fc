import DiagramText.Proofs.Flowchart.Legibility
import DiagramText.Validation.Report

/-! How far the check for plain ids guards flowcharts. No statement of the grammar takes a node or an edge
with plain ids for something else, but for one: an edge that starts at a node named by the keyword for
subgraphs opens a subgraph. -/
namespace DiagramText.Flowchart

open Text (IsWord)

variable {e : Element} {g : Graph} {id : String}

theorem isWordChar_of_isAlphanum {c : Char} (h : c.isAlphanum) : Text.isWordChar c := by
  have small : c.toNat < 128 := by
    have ranges : ((decide (65 ≤ c.val ∧ c.val ≤ 90) || (decide (97 ≤ c.val) && decide (c.val ≤ 122))) ||
        (decide (48 ≤ c.val) && decide (c.val ≤ 57))) = true := h
    simp only [Bool.or_eq_true, Bool.and_eq_true, decide_eq_true_eq, UInt32.le_iff_toNat_le] at ranges
    have same : c.toNat = c.val.toNat := rfl
    simp at ranges
    omega
  rw [Text.isWordChar, Text.isAlphanumeric_ascii small, h, Bool.true_or]

theorem isWord_of_isPlainId (plain : Validation.isPlainId id) : IsWord id := by
  have each {c : Char} (h : (c.isAlphanum || c == '_') = true) : Text.isWordChar c := by
    rw [Bool.or_eq_true, beq_iff_eq] at h
    rcases h with letter | rfl
    · exact isWordChar_of_isAlphanum letter
    · decide
  unfold Validation.isPlainId at plain
  split at plain
  · next c cs split =>
    rw [Bool.and_eq_true] at plain
    refine ⟨by rw [split]; exact List.cons_ne_nil c cs, ?_⟩
    rw [split, List.forall_mem_cons]
    refine ⟨each ?_, fun d h => each (List.all_eq_true.1 plain.2 d h)⟩
    have first := plain.1
    rw [Bool.or_eq_true] at first ⊢
    exact first.imp_left fun letter => by rw [Char.isAlphanum, letter, Bool.true_or]
  · cases plain

/-- A flowchart of nodes with plain ids. -/
structure IsPlain (g : Graph) : Prop where
  keyed : ∀ p ∈ g.elements.entries, p.1 = p.2.id
  nodes : ∀ e ∈ g.elements.values, e.kind = .node
  ids : ∀ e ∈ g.elements.values, Validation.isPlainId e.id
  labels : ∀ e ∈ g.elements.values, Keeps e.label
  closed : g.Closed
  uncut : ∀ e ∈ styled g.elements.values, IsUncut (styleText e)

/-- Nodes list nothing, so that they are nested in nothing. -/
theorem nested_of_nodes (keyed : ∀ p ∈ g.elements.entries, p.1 = p.2.id)
    (nodes : ∀ e ∈ g.elements.values, e.kind = .node) : Outline.Nested g.elements where
  keyed := keyed
  once := by
    have none : (g.elements.values.filter fun e => e.kind = .container) = [] := by
      rw [List.filter_eq_nil_iff]
      intro e there
      rw [nodes e there]
      decide
    rw [Outline.listings, none]
    exact List.nodup_nil
  acyclic id cycle := by
    obtain ⟨key, ⟨e, found, box, -⟩, -⟩ := (Relation.TransGen.head'_iff).1 cycle
    rw [nodes e (Table.mem_values_of_get? found)] at box
    cases box

theorem IsPlain.legible (plain : IsPlain g) : IsLegible g where
  nested := nested_of_nodes plain.keyed plain.nodes
  words e there := isWord_of_isPlainId (plain.ids e there)
  labels := plain.labels
  closed := plain.closed
  uncut := plain.uncut

/-- Printed and read again, a flowchart of nodes with plain ids has all its elements and, in their order,
all connections that do not start at a node named by the keyword. It is the same if and only if none does. -/
theorem parse_print_plain_iff (now : Instant) {d : Diagram} (flowchart : d.dialect = .flowchart)
    (plain : IsPlain d.toGraph) : ∃ d', parse now (DiagramText.print d) = .ok d' ∧ d'.dialect = .flowchart ∧
      (∀ id ∈ d.elements.keys, id ∈ d'.elements.keys) ∧
      d'.connections.values.map ends = (d.connections.values.filter fun c => c.source ≠ "subgraph").map ends ∧
      ((d'.elements.keys.Perm d.elements.keys ∧ d'.connections.values.map ends = d.connections.values.map ends) ↔
        ∀ c ∈ d.connections.values, c.source ≠ "subgraph") := by
  obtain ⟨d', parsed, dialect, reread⟩ := parse_print_of_legible now flowchart plain.legible
  refine ⟨d', parsed, dialect, fun id known => ?_, reread.ends, ?_, fun others => ?_⟩
  · obtain ⟨e, found⟩ := Option.isSome_iff_exists.1 (Table.contains_iff.2 known)
    obtain ⟨x, there, -⟩ := reread.labels e (Table.mem_values_of_get? found)
    have own : id = e.id := plain.keyed _ (Table.get?_eq_some_iff.1 found)
    exact own ▸ Table.mem_keys_of_get? there
  · rintro ⟨-, same⟩ c there
    have lengths := congrArg List.length (reread.ends.symm.trans same)
    rw [List.length_map, List.length_map, List.length_filter_eq_length_iff] at lengths
    exact of_decide_eq_true (lengths c there)
  · refine ⟨reread.keys others, reread.ends.trans (congrArg (List.map ends) ?_)⟩
    exact List.filter_eq_self.2 fun c there => decide_eq_true (others c there)

/-! ### Keywords for ids -/

/-- Nodes named by keywords. -/
def keywordNodes : Table Element :=
  ⟨[("end", .node .epoch "end" "start"), ("style", .node .epoch "style" "way"),
    ("subgraph", .node .epoch "subgraph" "goal")], by decide⟩

def keywordGraph (connections : Table Connection) : Diagram :=
  .ofGraph .flowchart ⟨keywordNodes, connections⟩ (.create .epoch)

/-- The edges lead to the node named by the keyword. -/
def keywordTarget : Diagram := keywordGraph
  ⟨[("c", .create .epoch "c" "end" "style" "default"), ("d", .create .epoch "d" "style" "subgraph" "thick")], by decide⟩

/-- An edge leads away from it. -/
def keywordSource : Diagram := keywordGraph ⟨[("c", .create .epoch "c" "subgraph" "end" "default")], by decide⟩

theorem isPlain_keywordGraph {connections : Table Connection} (closed : (keywordGraph connections).toGraph.Closed) :
    IsPlain (keywordGraph connections).toGraph := by
  have unstyled : ∀ e ∈ keywordNodes.values, e.style = ∅ := by decide
  refine ⟨?_, ?_, ?_, ?_, closed, fun e there => ?_⟩
  · show ∀ p ∈ keywordNodes.entries, p.1 = p.2.id
    decide
  · show ∀ e ∈ keywordNodes.values, e.kind = .node
    decide
  · show ∀ e ∈ keywordNodes.values, Validation.isPlainId e.id
    decide
  · show ∀ e ∈ keywordNodes.values, Keeps e.label
    decide
  · obtain ⟨among, some⟩ := mem_of_mem_styled there
    rw [unstyled e among] at some
    cases some

theorem parse_print_plain_iff_target : ∃ d', parse .epoch (DiagramText.print keywordTarget) = .ok d' ∧
    d'.dialect = .flowchart ∧ d'.elements.keys.Perm ["end", "style", "subgraph"] ∧
      d'.connections.values.map ends = [("end", "style"), ("style", "subgraph")] := by
  obtain ⟨d', parsed, dialect, -, -, kept⟩ := parse_print_plain_iff .epoch (d := keywordTarget) rfl
    (isPlain_keywordGraph (by unfold Graph.Closed; decide))
  obtain ⟨keys, same⟩ := kept.2 (by decide)
  exact ⟨d', parsed, dialect, keys, same⟩

/-- The edge is read as the opener of a subgraph, and lost. -/
theorem ends_parse_print_keyword : ∃ d', parse .epoch (DiagramText.print keywordSource) = .ok d' ∧
    keywordSource.connections.values.map ends = [("subgraph", "end")] ∧ d'.connections.values.map ends = [] := by
  have plain : IsPlain keywordSource.toGraph := isPlain_keywordGraph (by unfold Graph.Closed; decide)
  obtain ⟨d', parsed, -, reread⟩ := parse_print_of_legible .epoch rfl plain.legible
  exact ⟨d', parsed, rfl, reread.ends⟩

end DiagramText.Flowchart
