import DiagramText.Proofs.Graph.Building

/-! What is known of all elements and of all connections of a graph. A reader keeps it when it makes,
changes and connects only what has the properties. -/
namespace DiagramText.Graph

/-- Every element and every connection has a property. -/
structure Contents (P : Element → Prop) (Q : Connection → Prop) (g : Graph) : Prop where
  elements : ∀ e ∈ g.elements.values, P e
  connections : ∀ c ∈ g.connections.values, Q c

variable {P : Element → Prop} {Q : Connection → Prop} {g : Graph} {id : String}

theorem contents_empty : Contents P Q empty :=
  ⟨by simp [empty, Table.values], by simp [empty, Table.values]⟩

/-- What holds of the ids of all elements holds of the ends of a connection that has both. -/
theorem ends_of_joins {P : String → Prop} (keyed : ∀ p ∈ g.elements.entries, p.1 = p.2.id)
    (ids : ∀ e ∈ g.elements.values, P e.id) {c : Connection} (joined : g.joins c) :
    P c.source ∧ P c.target := by
  have named {id : String} (has : g.hasElement id) : P id := by
    obtain ⟨e, found⟩ := Option.isSome_iff_exists.1 has
    have own : id = e.id := keyed _ (Table.get?_eq_some_iff.1 found)
    exact own ▸ ids e (Table.mem_values_of_get? found)
  rw [joins, Bool.and_eq_true] at joined
  exact ⟨named joined.1, named joined.2⟩

namespace Contents

theorem addElement (contents : Contents P Q g) {e : Element} (made : P e) : Contents P Q (g.addElement e) := by
  unfold Graph.addElement
  split
  · exact contents
  · refine ⟨fun x there => ?_, contents.connections⟩
    rcases Table.mem_values_insert there with rfl | old
    · exact made
    · exact contents.elements x old

theorem ensure (contents : Contents P Q g) {make : Nat → Element} (made : ∀ n, P (make n)) :
    Contents P Q (g.ensure id make) := by
  unfold Graph.ensure
  split
  · exact contents
  · refine ⟨fun x there => ?_, contents.connections⟩
    rcases Table.mem_values_insert there with rfl | old
    · exact made _
    · exact contents.elements x old

theorem modifyElement (contents : Contents P Q g) {f : Element → Element} (keeps : ∀ e, P e → P (f e)) :
    Contents P Q (g.modifyElement id f) := by
  refine ⟨fun x there => ?_, contents.connections⟩
  obtain ⟨p, among, rfl | ⟨-, rfl⟩⟩ := Table.mem_values_modify there
  · exact contents.elements p.2 (Table.mem_values_iff.2 ⟨p, among, rfl⟩)
  · exact keeps p.2 (contents.elements p.2 (Table.mem_values_iff.2 ⟨p, among, rfl⟩))

theorem connect (contents : Contents P Q g) {now : Instant} {source target kind label : String}
    {properties : List (String × Json)}
    (made : ∀ id, Q (linkAs now id source target kind label properties)) :
    Contents P Q (g.connect now source target kind label properties) := by
  refine ⟨contents.elements, fun c there => ?_⟩
  rcases Table.mem_values_insert there with rfl | old
  · exact made _
  · exact contents.connections c old

end Contents
end DiagramText.Graph
