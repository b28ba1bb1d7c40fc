import DiagramText.Proofs.Graph.Building
import DiagramText.Proofs.Outline.Nesting

/-! Outlines drawn again. A printed outline is read line by line: every element is new when its line
is read and goes to the end and into the innermost open group, and a group is closed after what is
inside it. So the elements come in the order of the outline, and every group lists just what stands
inside it, whatever pen they are drawn with. -/
namespace DiagramText.Outline

/-- How a dialect draws the elements of an outline, each after a number of others. -/
structure Pen where
  leaf : Nat → Element → Element
  box : Nat → Element → Element
  leaf_id : ∀ n e, (leaf n e).id = e.id
  box_id : ∀ n e, (box n e).id = e.id
  leaf_kind : ∀ n e, (leaf n e).kind ≠ .container
  box_kind : ∀ n e, (box n e).kind = .container
  /-- A new group lists nothing. -/
  box_children : ∀ n e, (box n e).properties.get? Element.childrenKey = some (.ofStrings [])

namespace Pen

variable {pen : Pen} {n : Nat} {e : Element} {f : Forest}

/-- A group that lists some ids. -/
def group (pen : Pen) (n : Nat) (e : Element) (listed : List String) : Element :=
  (pen.box n e).setProperty Element.childrenKey (.ofStrings listed)

theorem group_id (listed : List String) : (pen.group n e listed).id = e.id := pen.box_id n e

theorem group_kind (listed : List String) : (pen.group n e listed).kind = .container :=
  pen.box_kind n e

theorem children_group (listed : List String) :
    (pen.group n e listed).properties.get? Element.childrenKey = some (.ofStrings listed) := by
  rw [group, Element.setProperty, Table.get?_insert, if_pos rfl]

theorem listed_group (listed : List String) :
    (pen.group n e listed).listed Element.childrenKey = listed := by
  rw [Element.listed, children_group]
  exact Json.strings_ofStrings listed

theorem append_group (listed : List String) (id : String) :
    (pen.group n e listed).append Element.childrenKey (.str id) = pen.group n e (listed ++ [id]) := by
  rw [Element.append_ofStrings (children_group listed)]
  simp only [group, Element.setProperty, Table.insert_insert]

theorem foldl_append_group (listed ids : List String) :
    ids.foldl (fun e id => e.append Element.childrenKey (.str id)) (pen.group n e listed) =
      pen.group n e (listed ++ ids) := by
  induction ids generalizing listed with
  | nil => simp
  | cons id ids ih => rw [List.foldl_cons, append_group, ih, List.append_assoc, List.singleton_append]

/-- The forest as it is drawn after a number of elements. -/
def redraw (pen : Pen) : Nat → Forest → Forest
  | _, .nil => .nil
  | n, .leaf e rest => .leaf (pen.leaf n e) (pen.redraw (n + 1) rest)
  | n, .group e inside rest =>
    .group (pen.group n e inside.tops) (pen.redraw (n + 1) inside)
      (pen.redraw (n + 1 + inside.ids.length) rest)

@[simp] theorem ids_redraw (pen : Pen) (n : Nat) (f : Forest) : (pen.redraw n f).ids = f.ids := by
  induction f generalizing n with
  | nil => rfl
  | leaf e rest ih => simp [redraw, pen.leaf_id, ih]
  | group e inside rest inner outer => simp [redraw, group_id, inner, outer]

@[simp] theorem tops_redraw (pen : Pen) (n : Nat) (f : Forest) : (pen.redraw n f).tops = f.tops := by
  induction f generalizing n with
  | nil => rfl
  | leaf e rest ih => simp [redraw, Forest.tops, pen.leaf_id, ih]
  | group e inside rest _ ih => simp [redraw, Forest.tops, group_id, ih]

theorem keys_redraw (pen : Pen) (n : Nat) (f : Forest) :
    (pen.redraw n f).entries.map Prod.fst = f.ids := by
  rw [← pen.ids_redraw n, Forest.entries, List.map_map]
  rfl

theorem length_redraw (pen : Pen) (n : Nat) (f : Forest) :
    (pen.redraw n f).entries.length = f.ids.length := by
  rw [← pen.keys_redraw n, List.length_map]

/-! ### What a drawn forest looks like -/

/-- What is seen of the drawn elements, if it is seen of them one by one. -/
theorem map_redraw {β : Type} {view image : Element → β}
    (leaf : ∀ n, ∀ e ∈ f.preorder, view (pen.leaf n e) = image e)
    (group : ∀ n, ∀ e ∈ f.preorder, ∀ listed, view (pen.group n e listed) = image e) (n : Nat) :
    (pen.redraw n f).preorder.map view = f.preorder.map image := by
  induction f generalizing n with
  | nil => rfl
  | leaf e rest ih =>
    simp only [Forest.preorder, List.forall_mem_cons, forall_and] at leaf group
    simp only [redraw, Forest.preorder, List.map_cons, leaf.1, ih leaf.2 group.2]
  | group e inside rest inner outer =>
    simp only [Forest.preorder, List.forall_mem_cons, List.forall_mem_append, forall_and] at leaf group
    simp only [redraw, Forest.preorder, List.map_cons, List.map_append, group.1,
      inner leaf.2.1 group.2.1, outer leaf.2.2 group.2.2]

/-- Elements that are drawn and then changed are drawn with another pen, if they are one by one. -/
theorem map_redraw_pen {other : Pen} {change : Element → Element}
    (leaf : ∀ n, ∀ e ∈ f.preorder, change (pen.leaf n e) = other.leaf n e)
    (group : ∀ n, ∀ e ∈ f.preorder, ∀ listed, change (pen.group n e listed) = other.group n e listed)
    (n : Nat) : (pen.redraw n f).preorder.map change = (other.redraw n f).preorder := by
  induction f generalizing n with
  | nil => rfl
  | leaf e rest ih =>
    simp only [Forest.preorder, List.forall_mem_cons, forall_and] at leaf group
    simp only [redraw, Forest.preorder, List.map_cons, leaf.1, ih leaf.2 group.2]
  | group e inside rest inner outer =>
    simp only [Forest.preorder, List.forall_mem_cons, List.forall_mem_append, forall_and] at leaf group
    simp only [redraw, Forest.preorder, List.map_cons, List.map_append, group.1,
      inner leaf.2.1 group.2.1, outer leaf.2.2 group.2.2]

/-- Every element of a forest that shows a table is drawn: a group with all that it lists. -/
theorem mem_redraw {table : Table Element} (shown : f.Shows table) {e : Element}
    (there : e ∈ f.preorder) :
    (e.kind ≠ .container ∧ ∃ k, pen.leaf k e ∈ (pen.redraw n f).preorder) ∨
      (e.kind = .container ∧ ∃ k, pen.group k e (childKeys table e) ∈ (pen.redraw n f).preorder) := by
  induction f generalizing n with
  | nil => simp [Forest.preorder] at there
  | leaf x rest ih =>
    rw [Forest.preorder, List.mem_cons] at there
    rw [redraw, Forest.preorder]
    rcases there with rfl | there
    · exact .inl ⟨shown.2.1, n, List.mem_cons_self ..⟩
    · exact (ih shown.2.2 there).imp
        (.imp_right (Exists.imp fun _ => List.mem_cons_of_mem _))
        (.imp_right (Exists.imp fun _ => List.mem_cons_of_mem _))
  | group x inside rest inner outer =>
    obtain ⟨_, box, lists, insideShown, restShown⟩ := shown
    rw [Forest.preorder, List.mem_cons, List.mem_append] at there
    simp only [redraw, Forest.preorder, List.mem_cons, List.mem_append]
    rcases there with rfl | there | there
    · exact .inr ⟨box, n, .inl (by rw [lists])⟩
    · exact (inner insideShown there).imp
        (.imp_right (Exists.imp fun _ h => .inr (.inl h))) (.imp_right (Exists.imp fun _ h => .inr (.inl h)))
    · exact (outer restShown there).imp
        (.imp_right (Exists.imp fun _ h => .inr (.inr h))) (.imp_right (Exists.imp fun _ h => .inr (.inr h)))

/-- A table that holds the drawn elements is shown by the drawn forest. -/
theorem shows_redraw {table : Table Element} (pen : Pen) (n : Nat) (f : Forest)
    (found : ∀ e ∈ (pen.redraw n f).preorder, table.get? e.id = some e) :
    (pen.redraw n f).Shows table := by
  induction f generalizing n with
  | nil => trivial
  | leaf e rest ih =>
    rw [redraw, Forest.preorder, List.forall_mem_cons] at found
    exact ⟨found.1, pen.leaf_kind n e, ih _ found.2⟩
  | group e inside rest inner outer =>
    rw [redraw, Forest.preorder, List.forall_mem_cons, List.forall_mem_append] at found
    have contained : ∀ id ∈ inside.tops, table.contains id := by
      intro id h
      have below := Forest.tops_subset_ids inside h
      rw [← pen.ids_redraw (n + 1)] at below
      obtain ⟨x, hx, rfl⟩ := List.mem_map.1 below
      rw [Table.contains, found.2.1 x hx]
      rfl
    refine ⟨found.1, group_kind _, ?_, inner _ found.2.1, outer _ found.2.2⟩
    rw [childKeys, listed_group, tops_redraw, List.filter_eq_self]
    exact contained

/-- What is the same for an element and its drawing is the same along the outline. -/
theorem map_items_redraw {β : Type} {view : Item → β}
    (leaf : ∀ n, ∀ e ∈ f.preorder, ∀ depth, view (.leaf (pen.leaf n e) depth) = view (.leaf e depth))
    (group : ∀ n, ∀ e ∈ f.preorder, ∀ listed depth,
      view (.opens (pen.group n e listed) depth) = view (.opens e depth)) (n depth : Nat) :
    ((pen.redraw n f).items depth).map view = (f.items depth).map view := by
  induction f generalizing n depth with
  | nil => rfl
  | leaf e rest ih =>
    simp only [Forest.preorder, List.forall_mem_cons, forall_and] at leaf group
    simp only [redraw, Forest.items, List.map_cons, leaf.1, ih leaf.2 group.2]
  | group e inside rest inner outer =>
    simp only [Forest.preorder, List.forall_mem_cons, List.forall_mem_append, forall_and] at leaf group
    simp only [redraw, Forest.items, List.map_cons, List.map_append, group.1,
      inner leaf.2.1 group.2.1, outer leaf.2.2 group.2.2]

end Pen

/-! ### Groups take in what is declared inside -/

/-- Lists some ids in the innermost open group. -/
def adopt (groups ids : List String) (es : List (String × Element)) : List (String × Element) :=
  match groups with
  | [] => es
  | group :: _ => es.map fun (key, e) =>
      (key, if key = group then ids.foldl (fun e id => e.append Element.childrenKey (.str id)) e else e)

theorem adopt_append (groups ids : List String) (es fs : List (String × Element)) :
    adopt groups ids (es ++ fs) = adopt groups ids es ++ adopt groups ids fs := by
  cases groups <;> simp [adopt]

@[simp] theorem keys_adopt (groups ids : List String) (es : List (String × Element)) :
    (adopt groups ids es).map Prod.fst = es.map Prod.fst := by
  cases groups <;> simp [adopt, Function.comp_def]

@[simp] theorem length_adopt (groups ids : List String) (es : List (String × Element)) :
    (adopt groups ids es).length = es.length := by
  cases groups <;> simp [adopt]

@[simp] theorem adopt_nil (groups : List String) (es : List (String × Element)) :
    adopt groups [] es = es := by
  cases groups <;> simp [adopt]

/-- The innermost group takes in the id, and any other element is as it was. -/
theorem exists_of_mem_adopt {groups : List String} {id : String} {es : List (String × Element)}
    {p : String × Element} (h : p ∈ adopt groups [id] es) : ∃ q ∈ es, q.1 = p.1 ∧
      p.2 = if groups.head? = some q.1 then q.2.append Element.childrenKey (.str id) else q.2 := by
  cases groups with
  | nil => exact ⟨p, h, rfl, rfl⟩
  | cons group groups =>
    obtain ⟨q, there, rfl⟩ := List.mem_map.1 h
    refine ⟨q, there, rfl, ?_⟩
    by_cases own : q.1 = group
    · simp [own]
    · simp [own, Ne.symm own]

theorem adopt_adopt (groups first later : List String) (es : List (String × Element)) :
    adopt groups later (adopt groups first es) = adopt groups (first ++ later) es := by
  cases groups with
  | nil => rfl
  | cons group groups =>
    simp only [adopt, List.map_map, List.foldl_append]
    apply List.map_congr_left
    intro p _
    simp only [Function.comp_apply]
    split <;> rfl

theorem adopt_of_not_mem {groups ids : List String} {es : List (String × Element)}
    (apart : ∀ group ∈ groups.head?, group ∉ es.map Prod.fst) : adopt groups ids es = es := by
  cases groups with
  | nil => rfl
  | cons group groups =>
    exact Table.map_of_not_mem (apart group rfl)
      fun e => ids.foldl (fun e id => e.append Element.childrenKey (.str id)) e

/-- Later ids come after the first ones, and what was added in between takes none of them in. -/
theorem adopt_added {groups first later : List String} {es added : List (String × Element)}
    (isOpen : ∀ group ∈ groups.head?, group ∈ es.map Prod.fst)
    (fresh : ∀ id ∈ added.map Prod.fst, id ∉ es.map Prod.fst) :
    adopt groups later (adopt groups first es ++ added) = adopt groups (first ++ later) es ++ added := by
  have kept : adopt groups later added = added :=
    adopt_of_not_mem fun group h inside => fresh group inside (isOpen group h)
  rw [adopt_append, adopt_adopt, kept]

/-- The group that was opened last takes in the ids. -/
theorem adopt_opened {pen : Pen} {n : Nat} {e : Element} {groups ids : List String}
    {es : List (String × Element)} (fresh : e.id ∉ es.map Prod.fst) :
    adopt (e.id :: groups) ids (es ++ [(e.id, pen.box n e)]) = es ++ [(e.id, pen.group n e ids)] := by
  have others : adopt (e.id :: groups) ids es = es := adopt_of_not_mem fun group h => by
    obtain rfl : e.id = group := by simpa using h
    exact fresh
  have empty : pen.box n e = pen.group n e [] :=
    (Element.setProperty_of_get? (pen.box_children n e)).symm
  rw [adopt_append, others, empty]
  simp [adopt, Pen.foldl_append_group]

/-! ### Canvases -/

/-- What an outline is drawn on: the elements and connections so far, and the groups that are open,
the innermost first. -/
structure Canvas where
  entries : List (String × Element)
  connections : Table Connection
  groups : List String

namespace Canvas

/-- The canvas that a graph is, with some groups open. -/
def ofGraph (g : Graph) (groups : List String) : Canvas := ⟨g.elements.entries, g.connections, groups⟩

def ids (c : Canvas) : List String := c.entries.map Prod.fst

/-- The innermost open group has an element. -/
def IsOpen (c : Canvas) : Prop := ∀ group ∈ c.groups.head?, group ∈ c.ids

/-- A new element goes to the end, and into the innermost group. -/
def add (c : Canvas) (id : String) (e : Element) : Canvas :=
  { c with entries := adopt c.groups [id] c.entries ++ [(id, e)] }

def draw (pen : Pen) (c : Canvas) : Item → Canvas
  | .leaf e _ => c.add e.id (pen.leaf c.entries.length e)
  | .opens e _ => { c.add e.id (pen.box c.entries.length e) with groups := e.id :: c.groups }
  | .closes _ => { c with groups := c.groups.tail }

/-- The canvas with a forest at the end, its tops in the innermost group. -/
def drawn (pen : Pen) (c : Canvas) (f : Forest) : Canvas :=
  { c with entries := adopt c.groups f.tops c.entries ++ (pen.redraw c.entries.length f).entries }

variable {pen : Pen} {c : Canvas} {e : Element} {f inside rest : Forest} {depth : Nat} {id : String}

theorem ids_add (c : Canvas) (id : String) (e : Element) : (c.add id e).ids = c.ids ++ [id] := by
  simp [ids, add]

theorem length_add (c : Canvas) (id : String) (e : Element) :
    (c.add id e).entries.length = c.entries.length + 1 := by simp [add]

theorem ids_drawn (pen : Pen) (c : Canvas) (f : Forest) : (c.drawn pen f).ids = c.ids ++ f.ids := by
  rw [ids, drawn, List.map_append, keys_adopt, pen.keys_redraw, ids]

theorem ids_draw_opens (pen : Pen) (c : Canvas) (e : Element) (depth : Nat) :
    (c.draw pen (.opens e depth)).ids = c.ids ++ [e.id] := ids_add ..

theorem isOpen_add (isOpen : c.IsOpen) (id : String) (e : Element) : (c.add id e).IsOpen := by
  intro group h
  rw [ids_add]
  exact List.mem_append_left _ (isOpen group h)

theorem isOpen_opens (pen : Pen) (c : Canvas) (e : Element) (depth : Nat) :
    (c.draw pen (.opens e depth)).IsOpen := by
  intro group h
  obtain rfl : e.id = group := by simpa [draw] using h
  rw [ids_draw_opens]
  exact List.mem_append_right _ (List.mem_singleton_self _)

theorem drawn_nil (pen : Pen) (c : Canvas) : c.drawn pen .nil = c := by
  simp [drawn, Forest.tops, Pen.redraw, Forest.entries, Forest.preorder]

theorem drawn_leaf (isOpen : c.IsOpen) (fresh : e.id ∉ c.ids) :
    (c.draw pen (.leaf e depth)).drawn pen rest = c.drawn pen (.leaf e rest) := by
  have later (x : Element) : adopt c.groups rest.tops (adopt c.groups [e.id] c.entries ++ [(e.id, x)]) =
      adopt c.groups ([e.id] ++ rest.tops) c.entries ++ [(e.id, x)] :=
    adopt_added isOpen (by simpa [ids] using fresh)
  simp only [draw, drawn, length_add]
  simp only [add, later]
  simp [Forest.tops, Pen.redraw, Forest.entries, Forest.preorder, pen.leaf_id]

/-- A group that is closed after what is inside it stands before the rest. -/
theorem drawn_group (isOpen : c.IsOpen) (fresh : e.id ∉ c.ids) (apart : ∀ id ∈ inside.ids, id ∉ c.ids) :
    (((c.draw pen (.opens e depth)).drawn pen inside).draw pen (.closes depth)).drawn pen rest =
      c.drawn pen (.group e inside rest) := by
  let n := c.entries.length
  let whole := (e.id, pen.group n e inside.tops) :: (pen.redraw (n + 1) inside).entries
  have opened : adopt (e.id :: c.groups) inside.tops
      (adopt c.groups [e.id] c.entries ++ [(e.id, pen.box n e)]) =
        adopt c.groups [e.id] c.entries ++ [(e.id, pen.group n e inside.tops)] :=
    adopt_opened (by rw [keys_adopt]; exact fresh)
  have added : whole.map Prod.fst = e.id :: inside.ids := by
    rw [List.map_cons, pen.keys_redraw]
  have later : adopt c.groups rest.tops (adopt c.groups [e.id] c.entries ++ whole) =
      adopt c.groups ([e.id] ++ rest.tops) c.entries ++ whole :=
    adopt_added isOpen (by rw [added, List.forall_mem_cons]; exact ⟨fresh, apart⟩)
  have length : (adopt c.groups [e.id] c.entries ++ whole).length = n + 1 + inside.ids.length := by
    rw [List.length_append, length_adopt, List.length_cons, pen.length_redraw]
    omega
  have inner : ((c.draw pen (.opens e depth)).drawn pen inside).entries =
      adopt c.groups [e.id] c.entries ++ whole := by
    simp only [draw, drawn, length_add]
    simp only [add]
    rw [opened, List.append_assoc, List.singleton_append]
  simp only [draw, drawn, List.tail_cons] at inner ⊢
  rw [inner, later, length]
  simp [whole, n, add, Forest.tops, Pen.redraw, Forest.entries, Forest.preorder, Pen.group_id]

/-- Listed in the innermost group and then made, an element is added to the canvas. -/
theorem ofGraph_withElement {g h : Graph} {groups : List String}
    (listed : h.elements.entries = adopt groups [id] g.elements.entries)
    (connections : h.connections = g.connections) (fresh : id ∉ g.elements.keys) (e : Element) :
    ofGraph (h.withElement id e) groups = (ofGraph g groups).add id e := by
  have still : id ∉ h.elements.keys := by
    rw [Table.keys, listed, keys_adopt]
    exact fresh
  rw [ofGraph, Graph.entries_withElement still, listed, Graph.withElement, connections]
  rfl

end Canvas

/-! ### The forest -/

section Run

variable {D : Type} {step : D → Item → D} {canvas : D → Canvas} {pen : Pen} {good : Element → Prop}

/-- A reader whose steps draw what they read, as long as its elements are new. -/
structure Draws (step : D → Item → D) (canvas : D → Canvas) (pen : Pen) (good : Element → Prop) : Prop where
  leaf : ∀ {d e depth}, good e → (canvas d).IsOpen → e.id ∉ (canvas d).ids →
    canvas (step d (.leaf e depth)) = (canvas d).draw pen (.leaf e depth)
  opens : ∀ {d e depth}, good e → (canvas d).IsOpen → e.id ∉ (canvas d).ids →
    canvas (step d (.opens e depth)) = (canvas d).draw pen (.opens e depth)
  closes : ∀ {d depth}, canvas (step d (.closes depth)) = (canvas d).draw pen (.closes depth)

/-- Read from its outline, a forest of new elements is drawn. -/
theorem Draws.forest (draws : Draws step canvas pen good) (d : D) (f : Forest) (depth : Nat)
    (isOpen : (canvas d).IsOpen) (all : ∀ e ∈ f.preorder, good e) (distinct : f.ids.Nodup)
    (fresh : ∀ id ∈ f.ids, id ∉ (canvas d).ids) :
    canvas ((f.items depth).foldl step d) = (canvas d).drawn pen f := by
  induction f generalizing d depth with
  | nil => exact (Canvas.drawn_nil pen _).symm
  | leaf e rest ih =>
    rw [Forest.preorder, List.forall_mem_cons] at all
    rw [Forest.ids_leaf, List.nodup_cons] at distinct
    rw [Forest.ids_leaf, List.forall_mem_cons] at fresh
    have first : canvas (step d (.leaf e depth)) = (canvas d).draw pen (.leaf e depth) :=
      draws.leaf all.1 isOpen fresh.1
    have still : ∀ id ∈ rest.ids, id ∉ (canvas (step d (.leaf e depth))).ids := by
      intro id h
      rw [first, Canvas.draw, Canvas.ids_add, List.mem_append, List.mem_singleton, not_or]
      exact ⟨fresh.2 id h, fun same => distinct.1 (same ▸ h)⟩
    rw [Forest.items, List.foldl_cons, ih _ _ (first ▸ Canvas.isOpen_add isOpen _ _) all.2 distinct.2
      still, first, Canvas.drawn_leaf isOpen fresh.1]
  | group e inside rest inner outer =>
    rw [Forest.preorder, List.forall_mem_cons, List.forall_mem_append] at all
    rw [Forest.ids_group, List.nodup_cons, List.mem_append, not_or, List.nodup_append] at distinct
    obtain ⟨⟨notInside, notRest⟩, insideDistinct, restDistinct, apart⟩ := distinct
    rw [Forest.ids_group, List.forall_mem_cons, List.forall_mem_append] at fresh
    have first : canvas (step d (.opens e depth)) = (canvas d).draw pen (.opens e depth) :=
      draws.opens all.1 isOpen fresh.1
    have openedIds := congrArg Canvas.ids first
    rw [Canvas.ids_draw_opens] at openedIds
    have insideFresh : ∀ id ∈ inside.ids, id ∉ (canvas (step d (.opens e depth))).ids := by
      intro id h
      rw [openedIds, List.mem_append, List.mem_singleton, not_or]
      exact ⟨fresh.2.1 id h, fun same => notInside (same ▸ h)⟩
    have within := inner (step d (.opens e depth)) (depth + 1)
      (first ▸ Canvas.isOpen_opens pen _ e depth) all.2.1 insideDistinct insideFresh
    let d' := (inside.items (depth + 1)).foldl step (step d (.opens e depth))
    have closed : canvas (step d' (.closes depth)) =
        (((canvas d).draw pen (.opens e depth)).drawn pen inside).draw pen (.closes depth) := by
      rw [draws.closes, within, first]
    have closedIds : (canvas (step d' (.closes depth))).ids = (canvas d).ids ++ [e.id] ++ inside.ids := by
      rw [closed]
      exact (Canvas.ids_drawn ..).trans (by rw [Canvas.ids_draw_opens])
    have closedOpen : (canvas (step d' (.closes depth))).IsOpen := by
      intro group h
      rw [closedIds]
      rw [closed] at h
      exact List.mem_append_left _ (List.mem_append_left _ (isOpen group h))
    have restFresh : ∀ id ∈ rest.ids, id ∉ (canvas (step d' (.closes depth))).ids := by
      intro id h
      simp only [closedIds, List.mem_append, List.mem_singleton, not_or]
      exact ⟨⟨fresh.2.2 id h, fun same => notRest (same ▸ h)⟩, fun below => apart id below id h rfl⟩
    have last := outer (step d' (.closes depth)) depth closedOpen all.2.2 restDistinct restFresh
    rw [Forest.items, List.foldl_cons, List.foldl_append, List.foldl_cons, last, closed,
      Canvas.drawn_group isOpen fresh.1 fresh.2.1]

end Run

end DiagramText.Outline
