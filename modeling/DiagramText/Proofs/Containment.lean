import Mathlib.Logic.Relation
import DiagramText.Proofs.Flowchart.Drawing
import DiagramText.Proofs.States.Soundness

/-! Containment in what is read. Subgraphs and composite states list what is first mentioned inside
them, whatever the lines say: an element is listed when it is new, by a group that is there already,
and never again. So containment is a forest in which whatever contains an element came before it. -/
namespace DiagramText

open Outline (Planted adopt)

/-! ### Lists of children -/

namespace Element

/-- The items in the list of children, strings or not. -/
def children (e : Element) : List Json := ((e.properties.get? childrenKey).bind Json.items?).getD []

theorem listed_childrenKey (e : Element) : e.listed childrenKey = e.children.filterMap Json.string? := by
  unfold listed children
  cases e.properties.get? childrenKey with
  | none => rfl
  | some j => cases j <;> rfl

theorem children_setProperty_of_ne {key : String} (apart : childrenKey ≠ key) (e : Element) (v : Json) :
    (e.setProperty key v).children = e.children := by
  rw [children, setProperty, Table.get?_insert, if_neg apart, children]

/-- Whatever was there, what is added comes last. -/
theorem children_append (e : Element) (v : Json) : (e.append childrenKey v).children = e.children ++ [v] := by
  unfold append children
  cases found : e.properties.get? childrenKey with
  | none => simp [setProperty, Table.get?_insert, Json.items?]
  | some j => cases j <;> simp [setProperty, Table.get?_insert, Json.items?]

end Element

namespace Graph

/-- An element lists an id among its children. -/
def Contains (g : Graph) (a b : String) : Prop := ∃ e, g.element? a = some e ∧ .str b ∈ e.children

/-- Containment is a forest that grew with the graph. -/
structure IsForest (g : Graph) : Prop where
  keyed : ∀ p ∈ g.elements.entries, p.1 = p.2.id
  /-- Whatever stands in a list of children is the id of an element. -/
  there : ∀ e ∈ g.elements.values, ∀ item ∈ e.children, ∃ x ∈ g.elements.values, item = .str x.id
  /-- Nothing stands twice in all the lists together. -/
  once : (g.elements.values.flatMap Element.children).Nodup
  /-- What contains an element was put in before it. -/
  before : ∀ a b, g.Contains a b → [a, b].Sublist g.elements.keys
  acyclic : ∀ a, ¬ Relation.TransGen g.Contains a a

end Graph

/-! ### Elements as readers plant them -/

namespace Outline

/-- Lists of children hold ids only, and no element lists one that came before it. -/
structure Sown (es : List (String × Element)) : Prop extends Planted es where
  strings : ∀ p ∈ es, p.2.children = (p.2.listed Element.childrenKey).map .str
  forward : es.Pairwise fun p q => p.1 ∉ q.2.listed Element.childrenKey

namespace Sown

variable {es : List (String × Element)} {groups : List String} {id : String} {e : Element}

theorem nil : Sown [] := ⟨Planted.nil, by simp, List.Pairwise.nil⟩

/-- A change that keeps the id and the children of an element. -/
theorem modify {table : Table Element} (sown : Sown table.entries) (key : String) {f : Element → Element}
    (ids : ∀ e, (f e).id = e.id) (lists : ∀ e, (f e).children = e.children) :
    Sown (table.modify key f).entries := by
  have listed (e : Element) : (f e).listed Element.childrenKey = e.listed Element.childrenKey := by
    rw [Element.listed_childrenKey, lists, ← Element.listed_childrenKey]
  refine ⟨sown.toPlanted.modify key ids fun e _ => listed e, ?_, ?_⟩
  · rw [Table.entries_modify, List.forall_mem_map]
    intro p there
    dsimp only
    split
    · rw [lists, listed]
      exact sown.strings p there
    · exact sown.strings p there
  · rw [Table.entries_modify, List.pairwise_map]
    refine sown.forward.imp fun {p q} apart => ?_
    dsimp only
    split
    · rw [listed]
      exact apart
    · exact apart

/-- A new element without children goes to the end and into the innermost open group. -/
theorem add (sown : Sown es) (fresh : id ∉ es.map Prod.fst) (own : e.id = id) (empty : e.children = []) :
    Sown (adopt groups [id] es ++ [(id, e)]) := by
  have unlisted : e.listed Element.childrenKey = [] := by rw [Element.listed_childrenKey, empty]; rfl
  refine ⟨sown.toPlanted.add fresh own unlisted, ?_, ?_⟩
  · rw [List.forall_mem_append, List.forall_mem_singleton]
    refine ⟨fun p adopted => ?_, by rw [empty, unlisted]; rfl⟩
    obtain ⟨q, old, -, same⟩ := exists_of_mem_adopt adopted
    rw [same]
    split
    · rw [Element.children_append, Element.listed_append, sown.strings q old, List.map_append]
      rfl
    · exact sown.strings q old
  · have adopted : (adopt groups [id] es).Pairwise fun p q => p.1 ∉ q.2.listed Element.childrenKey := by
      cases groups with
      | nil => exact sown.forward
      | cons group groups =>
        rw [adopt, List.pairwise_map]
        refine sown.forward.imp_of_mem fun {p q} hp _ apart => ?_
        dsimp only
        split
        · have new : p.1 ≠ id := fun same => fresh (same ▸ List.mem_map_of_mem hp)
          rw [List.foldl_cons, List.foldl_nil, Element.listed_append, List.mem_append, List.mem_singleton,
            not_or]
          exact ⟨apart, new⟩
        · exact apart
    rw [List.pairwise_append]
    refine ⟨adopted, List.pairwise_singleton _ _, fun p _ q last => ?_⟩
    rw [List.mem_singleton.1 last, unlisted]
    exact List.not_mem_nil

theorem mem_children_iff (sown : Sown es) {p : String × Element} (there : p ∈ es) {id : String} :
    .str id ∈ p.2.children ↔ id ∈ p.2.listed Element.childrenKey := by
  rw [sown.strings p there]
  simp

/-- What lists an id stands before it. -/
theorem sublist_keys (sown : Sown es) {p : String × Element} (there : p ∈ es)
    (listed : id ∈ p.2.listed Element.childrenKey) : [p.1, id].Sublist (es.map Prod.fst) := by
  obtain ⟨earlier, later, split⟩ := List.append_of_mem there
  have among : id ∈ es.map Prod.fst := sown.there p there id listed
  have forward := sown.forward
  rw [split, List.pairwise_append] at forward
  rw [split, List.map_append, List.map_cons, List.mem_append, List.mem_cons] at among
  have notEarlier : id ∉ earlier.map Prod.fst := by
    intro first
    obtain ⟨q, found, rfl⟩ := List.mem_map.1 first
    exact forward.2.2 q found p (List.mem_cons_self ..) listed
  have notOwn : id ≠ p.1 := by
    obtain ⟨rank, ranked⟩ := sown.ranked
    rintro rfl
    exact Nat.lt_irrefl _ (ranked p there _ listed)
  have after : id ∈ later.map Prod.fst := (among.resolve_left notEarlier).resolve_left notOwn
  rw [split, List.map_append, List.map_cons]
  exact (List.singleton_sublist.2 after).cons_cons p.1 |>.trans (List.sublist_append_right ..)

theorem nodup_children (sown : Sown es) (distinct : (es.map Prod.fst).Nodup) :
    ((es.map Prod.snd).flatMap Element.children).Nodup := by
  have each : ∀ p ∈ es, p.2.children.Nodup := by
    intro p there
    rw [sown.strings p there]
    exact (sown.once p there).map fun _ _ same => Json.str.inj same
  rw [List.flatMap_map, List.nodup_flatMap]
  refine ⟨each, ?_⟩
  have keys : es.Pairwise fun p q => p.1 ≠ q.1 := List.pairwise_map.1 distinct
  refine keys.imp_of_mem fun {p q} hp hq apart item (inP : item ∈ p.2.children) inQ => ?_
  rw [sown.strings p hp] at inP
  obtain ⟨id, listed, rfl⟩ := List.mem_map.1 inP
  exact apart (sown.apart p hp q hq id listed ((sown.mem_children_iff hq).1 inQ))

/-- Elements that are sown are contained like a forest. -/
theorem isForest {g : Graph} (sown : Sown g.elements.entries) : g.IsForest where
  keyed := sown.keyed
  there e among item listed := by
    obtain ⟨p, there, rfl⟩ := Table.mem_values_iff.1 among
    rw [sown.strings p there] at listed
    obtain ⟨id, child, rfl⟩ := List.mem_map.1 listed
    obtain ⟨q, found, rfl⟩ := List.mem_map.1 (sown.there p there id child)
    exact ⟨q.2, Table.mem_values_iff.2 ⟨q, found, rfl⟩, congrArg Json.str (sown.keyed q found)⟩
  once := sown.nodup_children g.elements.nodup
  before a b := by
    rintro ⟨e, found, listed⟩
    have there := Table.get?_eq_some_iff.1 found
    exact sown.sublist_keys there ((sown.mem_children_iff there).1 listed)
  acyclic a way := by
    obtain ⟨rank, ranked⟩ := sown.ranked
    have descends {a b : String} (way : Relation.TransGen g.Contains a b) : rank a < rank b := by
      have step {a b : String} (contains : g.Contains a b) : rank a < rank b := by
        obtain ⟨e, found, listed⟩ := contains
        have there := Table.get?_eq_some_iff.1 found
        exact ranked _ there b ((sown.mem_children_iff there).1 listed)
      induction way with
      | single contains => exact step contains
      | tail _ contains ih => exact Nat.lt_trans ih (step contains)
    exact Nat.lt_irrefl _ (descends way)

end Sown
end Outline

/-! ### Flowcharts -/

namespace Flowchart.Draft

variable {now : Instant} {d : Draft} {id : String} {e : Element}

theorem children_describe (ref : NodeRef) (e : Element) : (describe ref e).children = e.children := by
  have shape : Element.childrenKey ≠ Element.shapeKey := by decide
  have styleClass : Element.childrenKey ≠ "class" := by decide
  unfold describe
  cases ref.body <;> cases ref.styleClass <;>
    simp only [Element.children_setProperty_of_ne, shape, styleClass, ne_eq, not_false_eq_true] <;> rfl

theorem children_setStyles (declarations : List (String × String)) (e : Element) :
    (setStyles declarations e).children = e.children := by
  unfold setStyles
  induction declarations generalizing e with
  | nil => rfl
  | cons d ds ih => exact ih _

/-- What is in the draft is sown, and the open groups are there. -/
structure Sown (d : Draft) : Prop where
  elements : Outline.Sown d.graph.elements.entries
  groups : ∀ group ∈ d.groups, group ∈ d.graph.elements.keys

theorem sown_empty : Sown empty := ⟨Outline.Sown.nil, by simp [empty]⟩

theorem Sown.modify (sown : Sown d) (key : String) {f : Element → Element} (ids : ∀ e, (f e).id = e.id)
    (lists : ∀ e, (f e).children = e.children) :
    Sown { d with graph := d.graph.modifyElement key f } where
  elements := sown.elements.modify key ids lists
  groups group isOpen := by
    rw [Graph.keys_modifyElement]
    exact sown.groups group isOpen

/-- A new element is listed in the innermost open group, which is not the element itself. -/
theorem Sown.place (sown : Sown d) (fresh : id ∉ d.graph.elements.keys) (own : e.id = id)
    (empty : e.children = []) : Sown (d.place id e) := by
  have isOpen : d.canvas.IsOpen := fun group top => sown.groups group (List.mem_of_mem_head? top)
  have canvas := canvas_place isOpen fresh e
  have entries : (d.place id e).graph.elements.entries = adopt d.groups [id] d.graph.elements.entries ++
      [(id, e)] := congrArg Outline.Canvas.entries canvas
  have groups : (d.place id e).groups = d.groups := congrArg Outline.Canvas.groups canvas
  constructor
  · rw [entries]
    exact sown.elements.add fresh own empty
  · rw [groups, keys_place fresh]
    exact fun group isOpen => List.mem_append_left _ (sown.groups group isOpen)

theorem Sown.declare (sown : Sown d) (ref : NodeRef) : Sown (d.declare now ref) := by
  by_cases there : d.graph.hasElement ref.id
  · rw [declare_of_hasElement there]
    exact sown.modify ref.id (describe_id ref) (children_describe ref)
  · rw [Graph.hasElement_iff] at there
    rw [declare_of_fresh there]
    refine sown.place there (describe_id ..) ?_
    rw [children_describe]
    rfl

theorem Sown.addLinks (sown : Sown d) (source : String) (links : List Link) :
    Sown (addLinks now d source links) := by
  induction links generalizing d source with
  | nil => exact sown
  | cons l links ih =>
    have declared : Sown (d.declare now l.target) := sown.declare l.target
    have connected : Sown { d.declare now l.target with
        graph := (d.declare now l.target).graph.connect now source l.target.id l.arrow.key
          (l.label.getD "") } := ⟨declared.elements, declared.groups⟩
    exact ih connected l.target.id

/-- The group that is opened is there, whether it is new or not. -/
theorem Sown.openGroup (sown : Sown d) (id label : String) : Sown (d.openGroup now id label) := by
  rw [openGroup_eq]
  by_cases there : d.graph.hasElement (d.groupName id)
  · rw [if_pos there]
    exact ⟨sown.elements, List.forall_mem_cons.2 ⟨Graph.hasElement_iff.1 there, sown.groups⟩⟩
  · rw [if_neg there]
    rw [Graph.hasElement_iff] at there
    have empty : (newGroup now (d.groupName id) label).children = [] := by
      rw [newGroup, Element.children, Element.setProperty, Table.get?_insert, if_pos rfl]
      rfl
    have placed : Sown (d.place (d.groupName id) (newGroup now (d.groupName id) label)) :=
      sown.place there rfl empty
    refine ⟨placed.elements, fun group isOpen => ?_⟩
    rw [keys_place there, List.mem_append, List.mem_singleton]
    exact (List.mem_cons.1 isOpen).symm.imp_left (sown.groups group)

theorem Sown.restyle (sown : Sown d) (declarations : List (String × String)) (ids : List String) : Sown
    { d with graph := ids.foldl (fun g id => g.modifyElement id (setStyles declarations)) d.graph } := by
  induction ids generalizing d with
  | nil => exact sown
  | cons id ids ih =>
    exact ih (sown.modify id (setStyles_id declarations) (children_setStyles declarations))

theorem Sown.apply (sown : Sown d) (s : Statement) : Sown (d.apply now s) := by
  cases s with
  | node ref => exact sown.declare ref
  | chain head links => exact (sown.declare head).addLinks head.id links
  | subgraph id label => exact sown.openGroup id label
  | close => exact ⟨sown.elements, fun group isOpen => sown.groups group (List.mem_of_mem_tail isOpen)⟩
  | style ids declarations => exact sown.restyle declarations ids
  | direction => exact sown

theorem Sown.foldl_apply (sown : Sown d) (statements : List Statement) :
    Sown (statements.foldl (Draft.apply now) d) := by
  induction statements generalizing d with
  | nil => exact sown
  | cons s statements ih => exact ih (sown.apply s)

end Flowchart.Draft

/-! ### State diagrams -/

namespace States.Draft

variable {now : Instant} {g : Graph} {id : String}

theorem children_newState (id : String) (n : Nat) : (newState now id n).children = [] := by
  rw [Element.children, (get?_newState id).2]
  rfl

theorem children_declared (label : Option String) (pseudo : Option Pseudo) (opensBlock : Bool)
    (e : Element) : (declared label pseudo opensBlock e).children = e.children := by
  rw [Element.children, get?_children_declared, Element.children]
  cases e.properties.get? Element.childrenKey <;> cases opensBlock <;> rfl

theorem sown_ensure (sown : Outline.Sown g.elements.entries) (groups : List String) (id : String) :
    Outline.Sown (ensure now groups g id).elements.entries := by
  by_cases there : g.hasElement id
  · rwa [ensure_of_hasElement there]
  · rw [Graph.hasElement_iff] at there
    have still : id ∉ (enlisted groups g id).elements.keys := by
      rw [keys_enlisted]
      exact there
    rw [ensure_of_fresh there, Graph.entries_withElement still, entries_enlisted there]
    exact sown.add there (newState_id now id _) (children_newState id _)

theorem sown_apply {d : Draft} (sown : Outline.Sown d.graph.elements.entries) (s : Statement) :
    Outline.Sown (d.apply now s).graph.elements.entries := by
  cases s with
  | declare id label pseudo opensBlock =>
    exact (sown_ensure sown d.groups id).modify id (declared_id label pseudo opensBlock)
      (children_declared label pseudo opensBlock)
  | close => exact sown
  | transition source target label =>
    exact sown_ensure (sown_ensure sown d.groups source) d.groups target
  | describe id description => exact (sown_ensure sown d.groups id).modify id (fun _ => rfl) fun _ => rfl

theorem sown_foldl_readLine {d : Draft} (sown : Outline.Sown d.graph.elements.entries)
    (lines : List String) : Outline.Sown (lines.foldl (readLine now) d).graph.elements.entries := by
  induction lines generalizing d with
  | nil => exact sown
  | cons line lines ih =>
    refine ih ?_
    unfold readLine
    split
    · exact sown_apply sown _
    · exact sown

end States.Draft

/-- Whatever the lines say, containment in what is read is a forest, in which an element comes after what
contains it. In a state diagram the terminal state stands in no composite, and only composites contain
anything. -/
theorem isForest_read (now : Instant) (lines : List String) :
    (Flowchart.read now lines).IsForest ∧ (States.read now lines).IsForest ∧
      ∀ e ∈ (States.read now lines).elements.values,
        .str States.terminal ∉ e.children ∧ (e.children ≠ [] → e.kind = .container) := by
  have flowchart : (lines.foldl (Flowchart.Draft.readLine now) .empty).Sown := by
    rw [Flowchart.Draft.foldl_readLine]
    exact Flowchart.Draft.sown_empty.foldl_apply _
  have states : Outline.Sown (States.read now lines).elements.entries :=
    States.Draft.sown_foldl_readLine Outline.Sown.nil lines
  have settled : States.Draft.Settled _ (States.read now lines) :=
    (States.Draft.sound_foldl_readLine States.Draft.sound_empty lines).settled
  refine ⟨flowchart.elements.isForest, states.isForest, fun e among => ?_⟩
  obtain ⟨p, there, rfl⟩ := Table.mem_values_iff.1 among
  refine ⟨fun listed => settled.unlisted p.2 among ((states.mem_children_iff there).1 listed), fun some => ?_⟩
  rcases (settled.states p.2 among).children with ⟨box, -⟩ | ⟨-, none⟩
  · exact box
  · exact absurd (by rw [Element.children, none]; rfl) some

end DiagramText
