import DiagramText.Proofs.Flowchart.Drawing
import DiagramText.Proofs.Graph.Lasting

/-! What lasts of the elements of a flowchart while it is read. A statement makes elements, lists them,
describes them and styles them; a relation that allows for what it does with those that are there holds
from one statement to the next. -/
namespace DiagramText.Flowchart

open DiagramText.Graph (Lasts)

/-- A relation between an element and what becomes of it when it lists another or is styled. -/
structure Lasting (R : Element → Element → Prop) : Prop where
  refl : ∀ e, R e e
  trans : ∀ a b c, R a b → R b c → R a c
  lists : ∀ e id, R e (e.append Element.childrenKey (.str id))
  styles : ∀ e ds, R e (Draft.setStyles ds e)

namespace Lasting

variable {R : Element → Element → Prop} {d : Draft} {id : String} {now : Instant} (lasting : Lasting R)

include lasting

theorem enlist (d : Draft) (id : String) : Lasts R d.graph (d.enlist id).graph := by
  unfold Draft.enlist
  split
  · exact .refl lasting.refl _
  · exact .modifyElement lasting.refl _ _ fun e => lasting.lists e id

theorem place (fresh : id ∉ d.graph.elements.keys) (e : Element) : Lasts R d.graph (d.place id e).graph :=
  (Lasts.withElement lasting.refl fresh e).trans lasting.trans (lasting.enlist ⟨_, d.groups⟩ id)

/-- A mention makes a node, or describes the element that is there. -/
theorem declare (now : Instant) (d : Draft) {ref : NodeRef} (described : ∀ e, R e (Draft.describe ref e)) :
    Lasts R d.graph (d.declare now ref).graph := by
  by_cases there : d.graph.hasElement ref.id
  · rw [Draft.declare_of_hasElement there]
    exact .modifyElement lasting.refl _ _ described
  · rw [Graph.hasElement_iff] at there
    rw [Draft.declare_of_fresh there]
    exact lasting.place there _

theorem addLinks (now : Instant) (d : Draft) (source : String) {links : List Link}
    (described : ∀ l ∈ links, ∀ e, R e (Draft.describe l.target e)) :
    Lasts R d.graph (Draft.addLinks now d source links).graph := by
  induction links generalizing d source with
  | nil => exact .refl lasting.refl _
  | cons l links ih =>
    rw [List.forall_mem_cons] at described
    -- A connection leaves the elements as they are.
    have linked : Lasts R d.graph ((d.declare now l.target).graph.connect now source l.target.id l.arrow.key
      (l.label.getD "")) := lasting.declare now d described.1
    exact linked.trans lasting.trans (ih ⟨_, _⟩ l.target.id described.2)

theorem openGroup (now : Instant) (d : Draft) (id label : String) :
    Lasts R d.graph (d.openGroup now id label).graph := by
  rw [Draft.openGroup_eq]
  by_cases there : d.graph.hasElement (d.groupName id)
  · rw [if_pos there]
    exact .refl lasting.refl _
  · rw [if_neg there]
    exact lasting.place (mt Graph.hasElement_iff.2 there) _

theorem restyle (g : Graph) (ids : List String) (declarations : List (String × String)) :
    Lasts R g (ids.foldl (fun g id => g.modifyElement id (Draft.setStyles declarations)) g) := by
  induction ids generalizing g with
  | nil => exact .refl lasting.refl _
  | cons id ids ih =>
    exact (Lasts.modifyElement lasting.refl g id fun e => lasting.styles e declarations).trans lasting.trans (ih _)

end Lasting
end DiagramText.Flowchart
