import DiagramText.Proofs.Graph.Building

/-! What lasts of the elements of a graph that is added to and changed. -/
namespace DiagramText.Graph

/-- Every element is still there, as one that is related to it. -/
def Lasts (R : Element → Element → Prop) (g h : Graph) : Prop :=
  ∀ id e, g.element? id = some e → ∃ x, h.element? id = some x ∧ R e x

namespace Lasts

variable {R : Element → Element → Prop} {g h k : Graph}

theorem refl (same : ∀ e, R e e) (g : Graph) : Lasts R g g := fun _ e found => ⟨e, found, same e⟩

theorem trans (chain : ∀ a b c, R a b → R b c → R a c) (first : Lasts R g h) (second : Lasts R h k) :
    Lasts R g k := by
  intro id e found
  obtain ⟨x, there, one⟩ := first id e found
  obtain ⟨y, still, two⟩ := second id x there
  exact ⟨y, still, chain e x y one two⟩

theorem modifyElement (same : ∀ e, R e e) (g : Graph) (id : String) {f : Element → Element} (change : ∀ e, R e (f e)) :
    Lasts R g (g.modifyElement id f) := by
  intro key e found
  by_cases hit : key = id
  · exact ⟨f e, by rw [element?, Graph.modifyElement, Table.get?_modify, if_pos hit, ← element?, found,
      Option.map_some], change e⟩
  · exact ⟨e, by rw [element?, Graph.modifyElement, Table.get?_modify, if_neg hit, ← element?, found], same e⟩

theorem withElement (same : ∀ e, R e e) {id : String} (fresh : id ∉ g.elements.keys) (e : Element) :
    Lasts R g (g.withElement id e) := by
  intro key x found
  have other : key ≠ id := by
    rintro rfl
    exact fresh (Table.mem_keys_of_get? found)
  exact ⟨x, by rw [element?, Graph.withElement, Table.get?_insert, if_neg other, ← element?, found], same x⟩

end Lasts
end DiagramText.Graph
