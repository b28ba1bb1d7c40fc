import DiagramText.Proofs.Flowchart.Reading
import DiagramText.Proofs.Flowchart.Style
import DiagramText.Proofs.Outline.Drawing

/-! A printed flowchart read into a draft. The nodes and subgraphs are drawn where their lines stand,
with the labels and shapes that they had; the edges join what has been drawn, and the styles are put
on it at the end. -/
namespace DiagramText.Flowchart

open Outline (Canvas Draws Forest Item Pen)
open Text (IsWord)

variable {now : Instant} {n : Nat} {e : Element}

/-! ### The pen -/

/-- The node that is drawn for an element. -/
def drawnNode (now : Instant) (n : Nat) (e : Element) : Element :=
  Draft.describe ⟨e.id, some (carried e.label, shapeOf e), none⟩ (Draft.newNode now e.id n)

/-- Elements are drawn as nodes and subgraphs, in some style. -/
def pen (now : Instant) (style : Element → Table Json) : Pen where
  leaf n e := { drawnNode now n e with style := style e }
  box _ e := { Draft.newGroup now e.id (carried e.label) with style := style e }
  leaf_id _ _ := rfl
  box_id _ _ := rfl
  leaf_kind _ _ := ElementKind.noConfusion
  box_kind _ _ := rfl
  box_children n e := by
    show (Draft.newGroup now e.id (carried e.label)).properties.get? Element.childrenKey = _
    rw [Draft.newGroup, Element.setProperty, Table.get?_insert, if_pos rfl]
    rfl

variable {style : Element → Table Json}

theorem ofKey?_key (s : Shape) : Shape.ofKey? s.key = some s := by cases s <;> decide

theorem shape?_leaf (n : Nat) (e : Element) :
    ((pen now style).leaf n e).shape? = some (shapeOf e).key :=
  Element.property?_setProperty ..

theorem shapeOf_leaf (n : Nat) (e : Element) : shapeOf ((pen now style).leaf n e) = shapeOf e := by
  rw [shapeOf, shape?_leaf, Option.bind_some, ofKey?_key, Option.getD_some]

@[simp] theorem label_leaf (n : Nat) (e : Element) :
    ((pen now style).leaf n e).label = carried e.label := by
  simp only [pen, drawnNode, Draft.describe, Element.setProperty]

@[simp] theorem label_group (n : Nat) (e : Element) (listed : List String) :
    ((pen now style).group n e listed).label = carried e.label := by
  simp only [Pen.group, pen, Draft.newGroup, Element.setProperty, Element.create]

/-- A node that is drawn is written as the element was. -/
theorem nodeText_leaf (n : Nat) (e : Element) : nodeText ((pen now style).leaf n e) = nodeText e := by
  rw [nodeText, shapeOf_leaf, label_leaf, labelText_carried]
  rfl

theorem groupText_group (n : Nat) (e : Element) (listed : List String) :
    groupText ((pen now style).group n e listed) = groupText e := by
  rw [groupText, label_group, labelText_carried]
  rfl

/-- The outline of a drawn forest is printed as the outline of the forest. -/
theorem map_itemLine_redraw (layout : Layout) (f : Forest) (n depth : Nat) :
    (((pen now style).redraw n f).items depth).map (itemLine layout) =
      (f.items depth).map (itemLine layout) :=
  Pen.map_items_redraw (fun n e _ depth => congrArg (layout.indented depth) (nodeText_leaf n e))
    (fun n e _ listed depth => congrArg (layout.indented depth) (groupText_group n e listed)) n depth

/-- A style line has the id and the style of its element, and a drawn element has both. -/
theorem map_styleText_redraw (f : Forest) (n : Nat) :
    (((pen now (·.style)).redraw n f).preorder.filter fun e => !e.style.isEmpty).map styleText =
      (f.preorder.filter fun e => !e.style.isEmpty).map styleText := by
  have same : ((pen now (·.style)).redraw n f).preorder.map (fun e => (e.id, e.style)) =
      f.preorder.map fun e => (e.id, e.style) :=
    Pen.map_redraw (fun _ _ _ => rfl) (fun _ _ _ _ => rfl) n
  let line (p : String × Table Json) : String :=
    "style " ++ p.1 ++ " " ++ ",".intercalate (p.2.entries.map fun q => q.1 ++ ":" ++ styleValue q.2)
  have lines (es : List Element) : (es.filter fun e => !e.style.isEmpty).map styleText =
      ((es.map fun e => (e.id, e.style)).filter fun p => !p.2.isEmpty).map line := by
    rw [List.filter_map, List.map_map]
    rfl
  rw [lines, same, ← lines]

/-! ### The outline -/

/-- What the line of an outline says. -/
def itemStatement : Item → Statement
  | .leaf e _ => .node ⟨e.id, some (carried e.label, shapeOf e), none⟩
  | .opens e _ => .subgraph e.id (carried e.label)
  | .closes _ => .close

namespace Draft

variable {d : Draft} {id : String}

def canvas (d : Draft) : Canvas := .ofGraph d.graph d.groups

theorem enlist_groups (d : Draft) (id : String) : (d.enlist id).groups = d.groups := by
  obtain ⟨g, groups⟩ := d
  cases groups <;> rfl

theorem enlist_connections (d : Draft) (id : String) :
    (d.enlist id).graph.connections = d.graph.connections := by
  obtain ⟨g, groups⟩ := d
  cases groups <;> rfl

theorem entries_enlist (d : Draft) (id : String) :
    (d.enlist id).graph.elements.entries = Outline.adopt d.groups [id] d.graph.elements.entries := by
  obtain ⟨g, groups⟩ := d
  cases groups <;> rfl

/-- A new element that is listed at once. -/
def place (d : Draft) (id : String) (e : Element) : Draft :=
  enlist { d with graph := d.graph.withElement id e } id

theorem keys_place (fresh : id ∉ d.graph.elements.keys) (e : Element) :
    (d.place id e).graph.elements.keys = d.graph.elements.keys ++ [id] := by
  rw [Table.keys, place, entries_enlist, Outline.keys_adopt]
  exact Graph.keys_withElement fresh e

/-- A new element goes to the end, and into the innermost group. -/
theorem canvas_place (isOpen : d.canvas.IsOpen) (fresh : id ∉ d.graph.elements.keys) (e : Element) :
    (d.place id e).canvas = d.canvas.add id e := by
  have apart : ∀ group ∈ d.groups.head?, group ∉ [(id, e)].map Prod.fst := by
    intro group h same
    obtain rfl : group = id := by simpa using same
    exact fresh (isOpen group h)
  have entries : (d.place id e).graph.elements.entries =
      Outline.adopt d.groups [id] d.graph.elements.entries ++ [(id, e)] := by
    rw [place, entries_enlist, Graph.entries_withElement fresh, Outline.adopt_append,
      Outline.adopt_of_not_mem apart]
  rw [canvas, Canvas.ofGraph, entries, place, enlist_connections, enlist_groups]
  rfl

theorem declare_of_fresh {ref : NodeRef} (fresh : ref.id ∉ d.graph.elements.keys) :
    d.declare now ref = d.place ref.id (describe ref (newNode now ref.id d.graph.elements.size)) := by
  unfold declare
  rw [Graph.hasElement_eq_false_iff.2 fresh, Graph.ensure_of_fresh fresh,
    Graph.modifyElement_withElement]
  rfl

theorem declare_of_hasElement {ref : NodeRef} (there : d.graph.hasElement ref.id) :
    d.declare now ref = { d with graph := d.graph.modifyElement ref.id (describe ref) } := by
  unfold declare
  rw [Graph.ensure_of_hasElement there]
  exact if_pos there

/-- A subgraph without an id is named by the number of elements. -/
def groupName (d : Draft) (id : String) : String :=
  if id = "" then "subgraph_" ++ toString (d.graph.elements.size + 1) else id

/-- The group that is opened is placed if it is not there. -/
theorem openGroup_eq (now : Instant) (d : Draft) (id label : String) : d.openGroup now id label =
    { if d.graph.hasElement (d.groupName id) then d
      else d.place (d.groupName id) (newGroup now (d.groupName id) label) with
      groups := d.groupName id :: d.groups } := by
  unfold openGroup groupName
  dsimp only
  generalize (if id = "" then _ else id) = name
  by_cases there : d.graph.hasElement name
  · simp only [if_pos there]
  · have made : d.graph.addElement (newGroup now name label) =
        d.graph.withElement name (newGroup now name label) := if_neg there
    simp only [if_neg there, made, enlist_groups]
    rfl

theorem openGroup_of_fresh (named : id ≠ "") (fresh : id ∉ d.graph.elements.keys) (label : String) :
    d.openGroup now id label =
      { d.place id (newGroup now id label) with groups := id :: d.groups } := by
  have name : d.groupName id = id := if_neg named
  rw [openGroup_eq, name, Graph.hasElement_eq_false_iff.2 fresh]
  rfl

end Draft

/-- Reading the lines of an outline draws it. -/
theorem draws (now : Instant) : Draws (fun (d : Draft) item => d.apply now (itemStatement item))
    Draft.canvas (pen now fun _ => ∅) (fun e => e.id ≠ "") where
  leaf {d e _} _ isOpen fresh := by
    let ref : NodeRef := ⟨e.id, some (carried e.label, shapeOf e), none⟩
    have made : d.declare now ref = _ := Draft.declare_of_fresh fresh
    exact (congrArg Draft.canvas made).trans (Draft.canvas_place isOpen fresh _)
  opens {d e _} named isOpen fresh := by
    have made : d.openGroup now e.id (carried e.label) = _ := Draft.openGroup_of_fresh named fresh _
    let opened (c : Canvas) : Canvas := { c with groups := e.id :: d.groups }
    exact (congrArg Draft.canvas made).trans (congrArg opened (Draft.canvas_place isOpen fresh _))
  closes := rfl

/-! ### Edges -/

theorem ofKey_key {kind : String} (known : (Arrow.ofKey? kind).isSome) : (Arrow.ofKey kind).key = kind := by
  obtain ⟨a, found⟩ := Option.isSome_iff_exists.1 known
  have same := List.find?_some found
  rw [Arrow.ofKey, found, Option.getD_some]
  simpa using same

/-- What the connection of an edge is made from. -/
def edgeJoint (c : Connection) : Graph.Joint := ⟨c.source, c.target, c.kind, carried c.label, []⟩

namespace Draft

/-- A bare mention of a node that is there changes nothing. -/
theorem declare_known {d : Draft} {id : String} (there : d.graph.hasElement id) :
    d.declare now ⟨id, none, none⟩ = d := by
  have same : d.graph.modifyElement id (describe ⟨id, none, none⟩) = d.graph :=
    Graph.modifyElement_eq_self fun _ => rfl
  unfold declare
  simp only [there, if_true, Graph.ensure, same]

/-- An edge between two elements that are there adds a connection and nothing else. -/
theorem apply_hop {d : Draft} {source target : String} (joined : d.graph.hasElement source ∧ d.graph.hasElement target)
    (a : Arrow) (label : Option String) :
    d.apply now (.chain ⟨source, none, none⟩ [⟨a, label, ⟨target, none, none⟩⟩]) =
      ⟨d.graph.connectAll now [⟨source, target, a.key, label.getD "", []⟩], d.groups⟩ := by
  simp only [apply, declare_known joined.1, addLinks, declare_known joined.2]
  rfl

theorem apply_edge {g : Graph} {c : Connection} (joined : g.joins c) (known : (Arrow.ofKey? c.kind).isSome) :
    apply now ⟨g, []⟩ (.chain ⟨c.source, none, none⟩ [edgeLink c]) = ⟨g.connectAll now [edgeJoint c], []⟩ := by
  rw [Graph.joins, Bool.and_eq_true] at joined
  have label : (edgeLink c).label.getD "" = carried c.label := by
    unfold edgeLink
    split
    · next none => exact (carried_eq_empty_iff.2 none).symm
    · rfl
  have added := @apply_hop now ⟨g, []⟩ _ _ joined (Arrow.ofKey c.kind) (edgeLink c).label
  rwa [label, ofKey_key known] at added

end Draft

/-! ### Styles -/

/-- The style lines of some elements put on a graph. -/
def restyled (g : Graph) (es : List Element) : Graph :=
  es.foldl (fun g e => g.modifyElement e.id (Draft.setStyles (styleDeclarations e.style))) g

theorem connections_foldl_modifyElement {β : Type} (key : β → String) (change : β → Element → Element)
    (bs : List β) (g : Graph) :
    (bs.foldl (fun g b => g.modifyElement (key b) (change b)) g).connections = g.connections := by
  induction bs generalizing g with
  | nil => rfl
  | cons b bs ih => exact ih _

theorem connections_restyled (g : Graph) (es : List Element) :
    (restyled g es).connections = g.connections := connections_foldl_modifyElement ..

/-- Elements that are changed one after the other, each under its own key. -/
theorem entries_foldl_modifyElement {β : Type} (key : β → String) (change : β → Element → Element)
    (bs : List β) (g : Graph) :
    (bs.foldl (fun g b => g.modifyElement (key b) (change b)) g).elements.entries =
      g.elements.entries.map fun p =>
        (p.1, bs.foldl (fun x b => if p.1 = key b then change b x else x) p.2) := by
  induction bs generalizing g with
  | nil => simp
  | cons b bs ih =>
    rw [List.foldl_cons, ih, Graph.modifyElement, Table.entries_modify, List.map_map]
    rfl

theorem entries_restyled (g : Graph) (es : List Element) : (restyled g es).elements.entries =
    g.elements.entries.map fun p => (p.1, es.foldl (fun x e =>
      if p.1 = e.id then Draft.setStyles (styleDeclarations e.style) x else x) p.2) :=
  entries_foldl_modifyElement Element.id (fun e => Draft.setStyles (styleDeclarations e.style)) es g

/-- Steps that change what has their key leave what has another. -/
theorem foldl_ite_of_not_mem {α β : Type} {key : β → String} {change : β → α → α} {bs : List β} {k : String}
    (apart : k ∉ bs.map key) (x : α) : bs.foldl (fun x b => if k = key b then change b x else x) x = x := by
  induction bs with
  | nil => rfl
  | cons b bs ih =>
    rw [List.map_cons, List.mem_cons, not_or] at apart
    rw [List.foldl_cons, if_neg apart.1, ih apart.2]

/-- Of steps that each change what has their key, just one changes a value. -/
theorem foldl_ite_of_mem {α β : Type} {key : β → String} {change : β → α → α} {bs : List β} {b : β}
    (there : b ∈ bs) (distinct : (bs.map key).Nodup) (x : α) :
    bs.foldl (fun x c => if key b = key c then change c x else x) x = change b x := by
  induction bs generalizing x with
  | nil => cases there
  | cons c cs ih =>
    rw [List.map_cons, List.nodup_cons] at distinct
    rw [List.foldl_cons]
    rcases List.mem_cons.1 there with rfl | later
    · rw [if_pos rfl, foldl_ite_of_not_mem distinct.1]
    · have apart : key b ≠ key c := fun same => distinct.1 (same ▸ List.mem_map_of_mem later)
      rw [if_neg apart, ih later distinct.2]

/-- An element without a style has no style line, and needs none. -/
theorem restyled_filter (g : Graph) (es : List Element) :
    restyled g (es.filter fun e => !e.style.isEmpty) = restyled g es := by
  induction es generalizing g with
  | nil => rfl
  | cons e es ih =>
    cases plain : e.style.isEmpty with
    | false =>
      rw [List.filter_cons_of_pos (by simp [plain])]
      exact ih _
    | true =>
      have none : styleDeclarations e.style = [] := by
        simpa [styleDeclarations, Table.isEmpty] using plain
      have same : g.modifyElement e.id (Draft.setStyles (styleDeclarations e.style)) = g :=
        Graph.modifyElement_eq_self fun x => by rw [none]; rfl
      rw [List.filter_cons_of_neg (by simp [plain]), ih, restyled, restyled, List.foldl_cons, same]

/-- Drawn without styles and restyled, elements have the styles that they had. -/
theorem entries_restyled_redraw {g : Graph} {f : Forest} {es : List Element}
    (entries : g.elements.entries = ((pen now fun _ => ∅).redraw n f).entries)
    (among : ∀ e ∈ f.preorder, e ∈ es) (distinct : (es.map (·.id)).Nodup)
    (styles : ∀ e ∈ es, IsStyle e.style) :
    (restyled g es).elements.entries = ((pen now (·.style)).redraw n f).entries := by
  let restyle (key : String) (x : Element) : Element := es.foldl (fun x e =>
    if key = e.id then Draft.setStyles (styleDeclarations e.style) x else x) x
  have only {e : Element} (there : e ∈ f.preorder) {x : Element} (plain : x.style = ∅) :
      restyle e.id x = { x with style := e.style } :=
    (foldl_ite_of_mem (among e there) distinct x).trans ((styles e (among e there)).setStyles plain)
  have drawn : ((pen now fun _ => ∅).redraw n f).preorder.map (fun x => restyle x.id x) =
      ((pen now (·.style)).redraw n f).preorder :=
    Pen.map_redraw_pen (fun n e there => only there rfl) (fun n e there listed => only there rfl) n
  have sameId (key : String) (x : Element) : (restyle key x).id = x.id := by
    have steps (es : List Element) (x : Element) : (es.foldl (fun x e =>
        if key = e.id then Draft.setStyles (styleDeclarations e.style) x else x) x).id = x.id := by
      induction es generalizing x with
      | nil => rfl
      | cons e es ih =>
        rw [List.foldl_cons, ih]
        split
        · exact Draft.setStyles_id ..
        · rfl
    exact steps es x
  rw [entries_restyled, entries, Forest.entries, Forest.entries, ← drawn, List.map_map, List.map_map]
  apply List.map_congr_left
  intro x _
  exact Prod.ext (sameId x.id x).symm rfl

end DiagramText.Flowchart
