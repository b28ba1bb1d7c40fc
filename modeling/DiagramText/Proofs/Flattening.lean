import DiagramText.Proofs.Graph.Clock
import DiagramText.Proofs.OneLine

/-! Stored texts put on one line before printing. Nothing of that is seen in print, since the printers
put the texts on one line themselves: a line break in a text starts no statement. The bare texts are
printed as they stand, though, and a label is compared with an id before it is on one line. -/
namespace DiagramText

open Text (IsOneLine oneLine)

/-! ### Values, elements and connections with texts on one line -/

namespace Json

/-- A string on one line; any other value as it is. -/
def onLine : Json → Json
  | .str s => .str (oneLine s)
  | j => j

/-- A list with its items changed; any other value as it is. -/
def mapItems (f : Json → Json) : Json → Json
  | .arr items => .arr (items.map f)
  | j => j

/-- An object with one field changed; any other value as it is. -/
def modifyField (key : String) (f : Json → Json) : Json → Json
  | .obj fields => .obj (fields.map fun (k, v) => (k, if k = key then f v else v))
  | j => j

@[simp] theorem string?_onLine (j : Json) : j.onLine.string? = j.string?.map oneLine := by cases j <;> rfl

theorem bind_string?_onLine (o : Option Json) :
    (o.map onLine).bind string? = (o.bind string?).map oneLine := by
  cases o with
  | none => rfl
  | some j => exact j.string?_onLine

theorem items?_mapItems (f : Json → Json) (j : Json) : (j.mapItems f).items? = j.items?.map (·.map f) := by
  cases j <;> rfl

/-- The strings of a list that may be there. -/
theorem getD_strings_mapItems_onLine (o : Option Json) :
    ((o.map (mapItems onLine)).map strings).getD [] = ((o.map strings).getD []).map oneLine := by
  match o with
  | some (.arr items) =>
    simp only [Option.map_some, Option.getD_some, mapItems, strings, List.filterMap_map, List.map_filterMap]
    exact List.filterMap_congr fun item _ => string?_onLine item
  | none | some .null | some (.bool _) | some (.num _) | some (.str _) | some (.obj _) => rfl

theorem field?_modifyField (key l : String) (f : Json → Json) (j : Json) :
    (j.modifyField key f).field? l = if l = key then (j.field? l).map f else j.field? l := by
  cases j with
  | obj fields =>
    simp only [modifyField, field?]
    induction fields with
    | nil => simp
    | cons field fields ih =>
      simp only [List.map_cons, Table.lookup_cons, ih]
      grind
  | _ => simp [modifyField, field?]

end Json

open Json (onLine mapItems modifyField)

namespace Element

def modifyProperty (key : String) (f : Json → Json) (e : Element) : Element :=
  { e with properties := e.properties.modify key f }

/-- The element with its label on one line. -/
def flat (e : Element) : Element := { e with label := oneLine e.label }

variable (e : Element) (key : String) {other : String}

@[simp] theorem id_flat : e.flat.id = e.id := rfl
@[simp] theorem kind_flat : e.flat.kind = e.kind := rfl
@[simp] theorem label_flat : e.flat.label = oneLine e.label := rfl
@[simp] theorem properties_flat : e.flat.properties = e.properties := rfl
@[simp] theorem property?_flat : e.flat.property? key = e.property? key := rfl
@[simp] theorem listed_flat : e.flat.listed key = e.listed key := rfl

theorem property?_modifyProperty :
    (e.modifyProperty key onLine).property? key = (e.property? key).map oneLine := by
  rw [property?, modifyProperty, Table.get?_modify, if_pos rfl, Json.bind_string?_onLine, property?]

theorem listed_modifyProperty :
    (e.modifyProperty key (mapItems onLine)).listed key = (e.listed key).map oneLine := by
  rw [listed, modifyProperty, Table.get?_modify, if_pos rfl, Json.getD_strings_mapItems_onLine, listed]

theorem get?_modifyProperty_of_ne (apart : other ≠ key) (f : Json → Json) :
    (e.modifyProperty key f).properties.get? other = e.properties.get? other := by
  rw [modifyProperty, Table.get?_modify, if_neg apart]

theorem property?_modifyProperty_of_ne (apart : other ≠ key) (f : Json → Json) :
    (e.modifyProperty key f).property? other = e.property? other := by
  rw [property?, get?_modifyProperty_of_ne e key apart, property?]

theorem listed_modifyProperty_of_ne (apart : other ≠ key) (f : Json → Json) :
    (e.modifyProperty key f).listed other = e.listed other := by
  rw [listed, get?_modifyProperty_of_ne e key apart, listed]

end Element

namespace Connection

/-- The connection with its label on one line. -/
def flat (c : Connection) : Connection := { c with label := oneLine c.label }

variable (c : Connection)

@[simp] theorem source_flat : c.flat.source = c.source := rfl
@[simp] theorem target_flat : c.flat.target = c.target := rfl
@[simp] theorem kind_flat : c.flat.kind = c.kind := rfl
@[simp] theorem label_flat : c.flat.label = oneLine c.label := rfl
@[simp] theorem properties_flat : c.flat.properties = c.properties := rfl
@[simp] theorem hasLabel_flat : c.flat.hasLabel = c.hasLabel := by simp [hasLabel]

end Connection

namespace Flowchart

/-- A style value that is no string is left: it is printed as JSON, which escapes line breaks. -/
def flattenElement (e : Element) : Element :=
  { e.flat with style := .ofList (e.style.entries.map fun (k, v) => (oneLine k, v.onLine)) }

end Flowchart

namespace Sequence

def flattenElement (e : Element) : Element := e.flat.modifyProperty participantsKey (mapItems onLine)

@[simp] theorem id_flattenElement (e : Element) : (flattenElement e).id = e.id := rfl
@[simp] theorem label_flattenElement (e : Element) : (flattenElement e).label = oneLine e.label := rfl

end Sequence

namespace Classes

def flattenElement (e : Element) : Element :=
  ((e.flat.modifyProperty attributesKey (mapItems onLine)).modifyProperty methodsKey
    (mapItems onLine)).modifyProperty stereotypeKey onLine

@[simp] theorem id_flattenElement (e : Element) : (flattenElement e).id = e.id := rfl
@[simp] theorem label_flattenElement (e : Element) : (flattenElement e).label = oneLine e.label := rfl

def flattenRelation (c : Connection) : Connection :=
  { c.flat with properties :=
      (c.properties.modify sourceCardinalityKey onLine).modify targetCardinalityKey onLine }

end Classes

namespace Entities

def flattenAttribute (a : Json) : Json :=
  (((a.modifyField "type" onLine).modifyField "name" onLine).modifyField "keys"
    (mapItems onLine)).modifyField "comment" onLine

def flattenElement (e : Element) : Element := e.flat.modifyProperty attributesKey (mapItems flattenAttribute)

end Entities

namespace Dialect

/-- An element with each text that its dialect prints on one line. -/
def flattenElement : Dialect → Element → Element
  | .flowchart => Flowchart.flattenElement
  | .sequence => Sequence.flattenElement
  | .classes => Classes.flattenElement
  | .states => Element.flat
  | .entities => Entities.flattenElement

def flattenConnection : Dialect → Connection → Connection
  | .classes => Classes.flattenRelation
  | .flowchart | .sequence | .states | .entities => Connection.flat

/-- Whether the printer leaves out a label that is the id. -/
def omitsLabel : Dialect → Element → Bool
  | .sequence, e => e.kind ≠ .note
  | .classes, _ | .states, _ => true
  | .flowchart, _ | .entities, _ => false

end Dialect

def Graph.changed (f : Element → Element) (h : Connection → Connection) (g : Graph) : Graph :=
  ⟨g.elements.mapValues f, g.connections.mapValues h⟩

/-- The diagram with its title and each text that its dialect prints on one line. -/
def Diagram.flattened (d : Diagram) : Diagram where
  toGraph := d.toGraph.changed d.dialect.flattenElement d.dialect.flattenConnection
  dialect := d.dialect
  metadata := { d.metadata with title := d.metadata.title.map oneLine }

/-! ### Outlines of changed elements -/

namespace Outline

def Item.changed (f : Element → Element) : Item → Item
  | .leaf e depth => .leaf (f e) depth
  | .opens e depth => .opens (f e) depth
  | .closes depth => .closes depth

/-- A change to what an outline does not look at. -/
structure Keeps (f : Element → Element) : Prop where
  id : ∀ e, (f e).id = e.id
  kind : ∀ e, (f e).kind = e.kind
  listed : ∀ e, (f e).listed Element.childrenKey = e.listed Element.childrenKey

variable {table : Table Element} {f : Element → Element} {skip : Element → Bool}

theorem childKeys_mapValues (keeps : Keeps f) (e : Element) :
    childKeys (table.mapValues f) (f e) = childKeys table e := by
  have contains : (table.mapValues f).contains = table.contains := funext (Table.contains_mapValues table f)
  rw [childKeys, keeps.listed, contains, childKeys]

theorem nestedIds_mapValues (keeps : Keeps f) : nestedIds (table.mapValues f) = nestedIds table := by
  have ids (k : String) : ((table.mapValues f).get? k).map (·.id) = (table.get? k).map (·.id) := by
    rw [Table.get?_mapValues, Option.map_map]
    exact Option.map_congr fun e _ => keeps.id e
  simp only [nestedIds, Table.values_mapValues, List.filter_map, List.flatMap_map, childKeys_mapValues keeps,
    ids, Function.comp_def, keeps.kind]

theorem walk_mapValues (keeps : Keeps f) (skips : ∀ e, skip (f e) = skip e) (visited : List String)
    (tasks : List Task) : walk (table.mapValues f) skip visited tasks =
      (walk table skip visited tasks).map (Item.changed f) := by
  fun_induction walk table skip visited tasks with
  | case1 => rw [walk]; rfl
  | case2 visited depth tasks ih => rw [walk_leave, ih]; rfl
  | case3 visited key depth tasks found ih =>
    have absent : (table.mapValues f).get? key = none := by rw [Table.get?_mapValues, found]; rfl
    rw [walk_absent absent, ih]
  | case4 visited key depth tasks e found seen ih =>
    have there : (table.mapValues f).get? key = some (f e) := by rw [Table.get?_mapValues, found]; rfl
    rw [walk_passed there (by rwa [skips, keeps.id]), ih]
  | case5 visited key depth tasks e found seen box ih =>
    have there : (table.mapValues f).get? key = some (f e) := by rw [Table.get?_mapValues, found]; rfl
    rw [not_or, Bool.not_eq_true] at seen
    rw [walk_group there (by rw [skips, seen.1]) (by rw [keeps.id]; exact seen.2) (by rw [keeps.kind, box]),
      keeps.id, childKeys_mapValues keeps, ih]
    rfl
  | case6 visited key depth tasks e found seen other ih =>
    have there : (table.mapValues f).get? key = some (f e) := by rw [Table.get?_mapValues, found]; rfl
    rw [not_or, Bool.not_eq_true] at seen
    rw [walk_leaf there (by rw [skips, seen.1]) (by rw [keeps.id]; exact seen.2) (by rwa [keeps.kind]),
      keeps.id, ih]
    rfl

theorem ofElements_mapValues (keeps : Keeps f) (skips : ∀ e, skip (f e) = skip e) :
    ofElements (table.mapValues f) skip = (ofElements table skip).map (Item.changed f) := by
  have roots : rootKeys (table.mapValues f) skip = rootKeys table skip := by
    rw [rootKeys, nestedIds_mapValues keeps, rootKeys]
    simp [Table.mapValues, List.filter_map, Function.comp_def, skips, keeps.id]
  rw [ofElements_eq_walk, roots, walk_mapValues keeps skips, ← ofElements_eq_walk]

end Outline

/-! ### The same print -/

theorem Text.oneLine_eq_empty {s : String} : oneLine s = "" ↔ s = "" :=
  ⟨fun none => by_contra fun some => Text.oneLine_ne_empty some none, by rintro rfl; rfl⟩

theorem map_oneLine {texts : List String} (whole : ∀ s ∈ texts, IsOneLine s) : texts.map oneLine = texts :=
  (List.map_congr_left fun s there => (whole s there).oneLine_eq).trans (List.map_id _)

theorem Element.label_flat_eq_id {e : Element} (id : IsOneLine e.id)
    (named : oneLine e.label = e.id → e.label = e.id) : oneLine e.label = e.id ↔ e.label = e.id :=
  ⟨named, fun same => by rw [same, id.oneLine_eq]⟩

theorem map_filter_map_congr {α β : Type} {f : α → α} {p : α → Bool} {h : α → β} {as : List α}
    (keeps : ∀ a ∈ as, p (f a) = p a) (same : ∀ a ∈ as, p a → h (f a) = h a) :
    ((as.map f).filter p).map h = (as.filter p).map h := by
  have kept : as.filter (p ∘ f) = as.filter p := List.filter_congr keeps
  rw [List.filter_map, List.map_map, kept]
  exact List.map_congr_left fun a there => same a (List.mem_of_mem_filter there) (List.of_mem_filter there)

variable {g : Graph} {e : Element}

namespace Flowchart

theorem keeps_flatten : Outline.Keeps flattenElement := ⟨fun _ => rfl, fun _ => rfl, fun _ => rfl⟩

theorem labelText_oneLine (label : String) : labelText (oneLine label) = labelText label := by
  rw [labelText, Text.oneLine_oneLine, labelText]

theorem placedItem_changed (item : Outline.Item) :
    placedItem (item.changed flattenElement) = placedItem item := by
  have node (e : Element) : nodeText (flattenElement e) = nodeText e :=
    congrArg (e.id ++ (shapeOf e).opening ++ · ++ (shapeOf e).closing) (labelText_oneLine e.label)
  have group (e : Element) : groupText (flattenElement e) = groupText e :=
    congrArg ("subgraph " ++ e.id ++ " [" ++ · ++ "]") (labelText_oneLine e.label)
  cases item <;> simp only [Outline.Item.changed, placedItem, node, group]

theorem edgeText_flat (c : Connection) : edgeText c.flat = edgeText c := by
  simp [edgeText, labelText_oneLine]

theorem style_flatten (bare : ∀ s ∈ bareTexts e, IsOneLine s) : (flattenElement e).style = e.style := by
  have same : (e.style.entries.map fun (k, v) => (oneLine k, v.onLine)) = e.style.entries := by
    refine (List.map_congr_left fun p there => ?_).trans (List.map_id _)
    obtain ⟨k, v⟩ := p
    have own : ∀ s ∈ k :: v.string?.toList, IsOneLine s := fun s within =>
      bare s (List.mem_flatMap.2 ⟨(k, v), there, within⟩)
    rw [List.forall_mem_cons] at own
    have value : v.onLine = v := by
      cases v with
      | str s => exact congrArg Json.str (own.2 s (List.mem_singleton_self s)).oneLine_eq
      | _ => rfl
    exact Prod.ext own.1.oneLine_eq value
  exact (congrArg Table.ofList same).trans (Table.ofList_entries e.style)

theorem statements_flatten (bare : ∀ e ∈ g.elements.values, ∀ s ∈ bareTexts e, IsOneLine s) :
    statements (g.changed flattenElement Connection.flat) = statements g := by
  have items : (Outline.ofElements (g.elements.mapValues flattenElement) fun _ => false).map placedItem =
      (Outline.ofElements g.elements fun _ => false).map placedItem := by
    rw [Outline.ofElements_mapValues keeps_flatten fun _ => rfl, List.map_map]
    exact List.map_congr_left fun item _ => placedItem_changed item
  have styles : (styled (g.elements.values.map flattenElement)).map (fun e => Placed.mk 1 (styleText e)) =
      (styled g.elements.values).map fun e => ⟨1, styleText e⟩ := by
    refine map_filter_map_congr (fun e there => ?_) fun e there _ => ?_
    · rw [style_flatten (bare e there)]
    · rw [styleText, style_flatten (bare e there), styleText]
      rfl
  simp only [statements, Graph.changed, items, Table.values_mapValues, List.map_map, Function.comp_def,
    edgeText_flat, styles]

end Flowchart

namespace Sequence

theorem declarationText_flatten (id : IsOneLine e.id) (named : oneLine e.label = e.id → e.label = e.id) :
    declarationText (flattenElement e) = declarationText e := by
  have role : (flattenElement e).property? roleKey = e.property? roleKey :=
    e.flat.property?_modifyProperty_of_ne participantsKey (by decide) _
  simp [declarationText, role, Text.oneLine_eq_empty, Element.label_flat_eq_id id named]

theorem noteText?_flatten (bare : ∀ s ∈ e.listed participantsKey, IsOneLine s) :
    noteText? (flattenElement e) = noteText? e := by
  have placement : (flattenElement e).property? placementKey = e.property? placementKey :=
    e.flat.property?_modifyProperty_of_ne participantsKey (by decide) _
  have participants : (flattenElement e).listed participantsKey = e.listed participantsKey := by
    exact (e.flat.listed_modifyProperty participantsKey).trans (map_oneLine bare)
  simp [noteText?, placement, participants]

theorem stepTexts_flatten (bare : ∀ e ∈ g.elements.values, ∀ s ∈ bareTexts e, IsOneLine s) :
    stepTexts (g.changed flattenElement Connection.flat) = stepTexts g := by
  have notes : ((g.elements.values.map flattenElement).filter fun e => e.kind = .note).map
        (fun e => (orderOf e.properties, noteText? e)) =
      (g.elements.values.filter fun e => e.kind = .note).map fun e => (orderOf e.properties, noteText? e) := by
    refine map_filter_map_congr (fun _ _ => rfl) fun e there note => ?_
    have own := bare e there
    rw [bareTexts, if_pos (by simpa using note)] at own
    have order : (flattenElement e).properties.get? orderKey = e.properties.get? orderKey :=
      e.flat.get?_modifyProperty_of_ne participantsKey (by decide) _
    rw [noteText?_flatten own, orderOf, order, orderOf]
  have messages (c : Connection) : messageText c.flat = messageText c := by simp [messageText]
  simp only [stepTexts, steps, Graph.changed, Table.values_mapValues, List.map_map, Function.comp_def, messages,
    Connection.properties_flat, notes]

theorem statements_flatten (whole : g.IsUnbroken)
    (bare : ∀ e ∈ g.elements.values, ∀ s ∈ bareTexts e, IsOneLine s)
    (named : ∀ e ∈ g.elements.values, e.kind ≠ .note → oneLine e.label = e.id → e.label = e.id) :
    statements (g.changed flattenElement Connection.flat) = statements g := by
  have declared : ((g.elements.values.map flattenElement).filter fun e => e.kind ≠ .note).map
        (fun e => Placed.mk 1 (declarationText e)) =
      (g.elements.values.filter fun e => e.kind ≠ .note).map fun e => ⟨1, declarationText e⟩ := by
    refine map_filter_map_congr (fun _ _ => rfl) fun e there other => ?_
    rw [declarationText_flatten (whole.ids e there) (named e there (by simpa using other))]
  rw [statements, stepTexts_flatten bare, Graph.changed, Table.values_mapValues, declared, statements]

end Sequence

namespace Classes

theorem headText_flatten (id : IsOneLine e.id) (named : oneLine e.label = e.id → e.label = e.id) :
    headText (flattenElement e) = headText e := by
  simp [headText, Text.oneLine_eq_empty, Element.label_flat_eq_id id named]

theorem nonEmpty_oneLine (s : String) : Reader.nonEmpty (oneLine s) = (Reader.nonEmpty s).map oneLine := by
  unfold Reader.nonEmpty
  by_cases empty : s = ""
  · rw [if_pos empty, if_pos (Text.oneLine_eq_empty.2 empty), Option.map_none]
  · rw [if_neg empty, if_neg (mt Text.oneLine_eq_empty.1 empty), Option.map_some]

theorem bodyTexts_flatten (e : Element) : bodyTexts (flattenElement e) = bodyTexts e := by
  have stereotype : (flattenElement e).property? stereotypeKey = (e.property? stereotypeKey).map oneLine := by
    rw [flattenElement, Element.property?_modifyProperty,
      Element.property?_modifyProperty_of_ne _ _ (by decide),
      Element.property?_modifyProperty_of_ne _ _ (by decide), Element.property?_flat]
  have methods : (flattenElement e).listed methodsKey = (e.listed methodsKey).map oneLine := by
    rw [flattenElement, Element.listed_modifyProperty_of_ne _ _ (by decide), Element.listed_modifyProperty,
      Element.listed_modifyProperty_of_ne _ _ (by decide), Element.listed_flat]
  have attributes : (flattenElement e).listed attributesKey = (e.listed attributesKey).map oneLine := by
    rw [flattenElement, Element.listed_modifyProperty_of_ne _ _ (by decide),
      Element.listed_modifyProperty_of_ne _ _ (by decide), Element.listed_modifyProperty, Element.listed_flat]
  have shown (o : Option String) :
      ((o.map oneLine).bind Reader.nonEmpty).map (fun a => "<<" ++ oneLine a ++ ">>") =
        (o.bind Reader.nonEmpty).map fun a => "<<" ++ oneLine a ++ ">>" := by
    cases o with
    | none => rfl
    | some s => simp [nonEmpty_oneLine, Option.map_map, Function.comp_def]
  rw [bodyTexts, stereotype, methods, attributes, shown, ← List.map_append, List.map_map, bodyTexts]
  simp only [Function.comp_def, Text.oneLine_oneLine]

theorem cardinalityText_oneLine (cardinality : Option String) :
    cardinalityText (cardinality.map oneLine) = cardinalityText cardinality := by
  cases cardinality with
  | none => rfl
  | some s => simp [cardinalityText]

theorem relationText_flatten (c : Connection) : relationText (flattenRelation c) = relationText c := by
  have source : (flattenRelation c).property? sourceCardinalityKey =
      (c.property? sourceCardinalityKey).map oneLine := by
    have apart : sourceCardinalityKey ≠ targetCardinalityKey := by decide
    simp [Connection.property?, flattenRelation, Table.get?_modify, apart, Json.bind_string?_onLine]
  have target : (flattenRelation c).property? targetCardinalityKey =
      (c.property? targetCardinalityKey).map oneLine := by
    have apart : targetCardinalityKey ≠ sourceCardinalityKey := by decide
    simp [Connection.property?, flattenRelation, Table.get?_modify, apart, Json.bind_string?_onLine]
  have label : (flattenRelation c).hasLabel = c.hasLabel := c.hasLabel_flat
  rw [relationText, source, target, label, cardinalityText_oneLine, cardinalityText_oneLine, relationText]
  simp [flattenRelation]

theorem statements_flatten (whole : g.IsUnbroken)
    (named : ∀ e ∈ g.elements.values, oneLine e.label = e.id → e.label = e.id) :
    statements (g.changed flattenElement flattenRelation) = statements g := by
  have blocks : ∀ e ∈ g.elements.values,
      Placed.block (headText (flattenElement e)) (bodyTexts (flattenElement e)) =
        Placed.block (headText e) (bodyTexts e) := fun e there => by
    rw [headText_flatten (whole.ids e there) (named e there), bodyTexts_flatten]
  simp only [statements, Graph.changed, Table.values_mapValues, List.flatMap_map, List.map_map,
    Function.comp_def, relationText_flatten, List.flatMap_congr blocks]

end Classes

namespace States

theorem declarationText_flat (id : IsOneLine e.id) (named : oneLine e.label = e.id → e.label = e.id) :
    declarationText e.flat = declarationText e := by
  simp [declarationText, Text.oneLine_eq_empty, Element.label_flat_eq_id id named]

theorem statements_flatten (whole : g.IsUnbroken)
    (named : ∀ e ∈ g.elements.values, oneLine e.label = e.id → e.label = e.id) :
    statements (g.changed Element.flat Connection.flat) = statements g := by
  have keeps : Outline.Keeps Element.flat := ⟨fun _ => rfl, fun _ => rfl, fun _ => rfl⟩
  have declared : ∀ e ∈ g.elements.values, declarationText e.flat = declarationText e := fun e there =>
    declarationText_flat (whole.ids e there) (named e there)
  have items : (Outline.ofElements g.elements fun e => e.id = terminal).map
        (placedItem ∘ Outline.Item.changed Element.flat) =
      (Outline.ofElements g.elements fun e => e.id = terminal).map placedItem :=
    List.map_congr_left <| Outline.forall_ofElements
      (fun e there depth => congrArg (Placed.mk depth) (declared e there))
      (fun e there depth => congrArg (Placed.mk depth <| · ++ " \x7b") (declared e there)) (fun _ => rfl) _
  have transitions (c : Connection) : transitionText c.flat = transitionText c := by simp [transitionText]
  rw [statements, Graph.changed, Outline.ofElements_mapValues keeps fun _ => rfl, List.map_map, items,
    Table.values_mapValues, List.map_map, statements]
  simp only [Function.comp_def, transitions]

end States

namespace Entities

theorem attributeText?_flatten {a : Json}
    (bare : ∀ texts ∈ attributeBareTexts? a, ∀ s ∈ texts, IsOneLine s) :
    attributeText? (flattenAttribute a) = attributeText? a := by
  have dataType : (flattenAttribute a).field? "type" = (a.field? "type").map onLine := by
    simp [flattenAttribute, Json.field?_modifyField]
  have name : (flattenAttribute a).field? "name" = (a.field? "name").map onLine := by
    simp [flattenAttribute, Json.field?_modifyField]
  have keys : (flattenAttribute a).field? "keys" = (a.field? "keys").map (mapItems onLine) := by
    simp [flattenAttribute, Json.field?_modifyField]
  have comment : (flattenAttribute a).field? "comment" = (a.field? "comment").map onLine := by
    simp [flattenAttribute, Json.field?_modifyField]
  revert bare
  unfold attributeText? attributeBareTexts?
  simp only [dataType, name, keys, comment, Json.bind_string?_onLine]
  cases (a.field? "type").bind Json.string? with
  | none => simp
  | some dataType =>
    cases (a.field? "name").bind Json.string? with
    | none => simp
    | some name =>
      intro bare
      have own := bare _ rfl
      rw [List.forall_mem_cons, List.forall_mem_cons] at own
      obtain ⟨typeWhole, nameWhole, keysWhole⟩ := own
      simp only [Option.map_some, Option.bind_eq_bind, Option.bind_some, typeWhole.oneLine_eq,
        nameWhole.oneLine_eq, Json.getD_strings_mapItems_onLine, map_oneLine keysWhole]
      cases (a.field? "comment").bind Json.string? with
      | none => rfl
      | some comment => simp

theorem attributeTexts_flatten (bare : ∀ s ∈ bareTexts e, IsOneLine s) :
    attributeTexts (flattenElement e) = attributeTexts e := by
  have items : ((flattenElement e).properties.get? attributesKey).bind Json.items? =
      ((e.properties.get? attributesKey).bind Json.items?).map (·.map flattenAttribute) := by
    rw [flattenElement, Element.modifyProperty, Table.get?_modify, if_pos rfl, Element.properties_flat]
    cases e.properties.get? attributesKey with
    | none => rfl
    | some j => exact j.items?_mapItems flattenAttribute
  have each : ∀ a ∈ ((e.properties.get? attributesKey).bind Json.items?).getD [],
      attributeText? (flattenAttribute a) = attributeText? a := fun a there =>
    attributeText?_flatten fun texts same s within =>
      bare s (List.mem_flatten.2 ⟨texts, List.mem_filterMap.2 ⟨a, there, same⟩, within⟩)
  rw [attributeTexts, items, attributeTexts]
  revert each
  cases (e.properties.get? attributesKey).bind Json.items? with
  | none => exact fun _ => rfl
  | some items =>
    intro each
    rw [Option.map_some, Option.getD_some, List.filterMap_map]
    exact List.filterMap_congr each

/-- A line break and the space that takes its place are alike no part of a name. -/
theorem labelText_oneLine (label : String) : labelText (oneLine label) = labelText label := by
  by_cases same : oneLine label = label
  · rw [same]
  · have flatOut : ¬ (oneLine label ≠ "" ∧ (oneLine label).toList.all Text.isNameChar) := by
      rintro ⟨-, name⟩
      rw [Text.toList_oneLine, List.all_eq_true] at name
      have noSpace : ' ' ∉ Text.singleLine label.toList := fun there => absurd (name _ there) (by decide)
      exact same (by rw [oneLine, Text.singleLine_eq_self_of_not_mem noSpace, String.ofList_toList])
    have out : ¬ (label ≠ "" ∧ label.toList.all Text.isNameChar) := by
      rintro ⟨-, name⟩
      rw [List.all_eq_true] at name
      exact same (Text.oneLine_eq_self (fun cr => absurd (name _ cr) (by decide))
        fun lf => absurd (name _ lf) (by decide))
    rw [labelText, if_neg flatOut, Text.quoted_oneLine, labelText, if_neg out]

theorem statements_flatten (bare : ∀ e ∈ g.elements.values, ∀ s ∈ bareTexts e, IsOneLine s) :
    statements (g.changed flattenElement Connection.flat) = statements g := by
  have blocks : ∀ e ∈ g.elements.values,
      Placed.block (flattenElement e).id (attributeTexts (flattenElement e)) =
        Placed.block e.id (attributeTexts e) :=
    fun e there => congrArg (Placed.block e.id) (attributeTexts_flatten (bare e there))
  have relationships (c : Connection) : relationshipText c.flat = relationshipText c :=
    congrArg (_ ++ " : " ++ ·) (labelText_oneLine c.label)
  simp only [statements, Graph.changed, Table.values_mapValues, List.flatMap_map, List.map_map,
    Function.comp_def, relationships, List.flatMap_congr blocks]

end Entities

namespace Dialect

theorem statements_flatten {t : Dialect} (whole : g.IsUnbroken)
    (bare : ∀ e ∈ g.elements.values, ∀ s ∈ t.bareTexts e, IsOneLine s)
    (named : ∀ e ∈ g.elements.values, t.omitsLabel e → oneLine e.label = e.id → e.label = e.id) :
    t.statements (g.changed t.flattenElement t.flattenConnection) = t.statements g := by
  cases t with
  | flowchart => exact Flowchart.statements_flatten bare
  | sequence =>
    refine Sequence.statements_flatten whole bare fun e there other => named e there ?_
    exact decide_eq_true other
  | classes => exact Classes.statements_flatten whole fun e there => named e there rfl
  | states => exact States.statements_flatten whole fun e there => named e there rfl
  | entities => exact Entities.statements_flatten bare

end Dialect

theorem Layout.titleLines_oneLine (l : Layout) (m : Metadata) :
    l.titleLines { m with title := m.title.map oneLine } = l.titleLines m := by
  unfold titleLines
  cases m.title with
  | none => rfl
  | some title => simp

/-- What is printed is the header, the title and the statements, one on a line. -/
theorem pieces_print (l : Layout) (m : Metadata) {t : Dialect}
    (whole : ∀ p ∈ t.statements g, IsOneLine p.text) : Text.pieces '\n' (t.print l g m).toList =
      (t.header l m :: l.titleLines m ++ (t.statements g).map l.line).map String.toList := by
  have free : ∀ line ∈ t.header l m :: l.titleLines m ++ (t.statements g).map l.line, '\n' ∉ line.toList := by
    rw [List.forall_mem_append, List.forall_mem_cons, List.forall_mem_map]
    refine ⟨⟨(t.isHeader_header l m).statement.unbroken, Source.not_mem_titleLines l m⟩, fun p there => ?_⟩
    exact Source.unbroken_indented (fun broken => (whole p there _ broken).1 rfl) l p.depth
  rw [t.print_eq, Layout.source]
  exact Text.pieces_joinLines (by simp) free

/-- Stored text starts no statement. A diagram is printed as if its title, labels, members and other texts
had been on one line, and every statement takes one line, in every layout. There are two conditions: no
bare text has a line break, and no label comes to its element's id only when it is put on one line. -/
theorem print_flattened {d : Diagram} (whole : d.toGraph.IsUnbroken)
    (bare : ∀ e ∈ d.elements.values, ∀ s ∈ d.dialect.bareTexts e, IsOneLine s)
    (named : ∀ e ∈ d.elements.values, d.dialect.omitsLabel e → oneLine e.label = e.id → e.label = e.id)
    (l : Layout) : ∃ s, (Registry.full l).print d = .ok s ∧ (Registry.full l).print d.flattened = .ok s ∧
      Text.pieces '\n' s.toList = (d.dialect.header l d.metadata :: l.titleLines d.metadata ++
        (d.dialect.statements d.toGraph).map l.line).map String.toList ∧
      ∀ p ∈ d.dialect.statements d.toGraph, IsOneLine p.text := by
  have statements := d.dialect.isOneLine_statements whole bare
  have header : d.dialect.header l d.flattened.metadata = d.dialect.header l d.metadata := by
    cases d.dialect <;> rfl
  have same : d.dialect.print l d.flattened.toGraph d.flattened.metadata =
      d.dialect.print l d.toGraph d.metadata := by
    rw [Dialect.print_eq, header, Dialect.print_eq, Layout.source, Layout.source]
    simp only [Diagram.flattened, d.dialect.statements_flatten whole bare named, l.titleLines_oneLine]
  refine ⟨_, Registry.print_full l d, ?_, pieces_print l d.metadata statements, statements⟩
  exact (Registry.print_full l d.flattened).trans (congrArg Except.ok same)

/-- A class diagram with a line break in every text but the ids. -/
def breakingTexts : Diagram where
  elements := .ofList [("A", ((Element.node .epoch "A" "A\nclass B").setProperty Classes.attributesKey
    (.ofStrings ["x\n\x7d\nclass C"])).setProperty Classes.stereotypeKey (.str "s\r\nt"))]
  connections := .ofList [("c", { Connection.create .epoch "c" "A" "A" "inheritance" with
    label := "l\nA --> D", properties := .ofList [(Classes.sourceCardinalityKey, .str "1\r2")] })]
  dialect := .classes
  metadata := { Metadata.create .epoch with title := some "T\nclass E" }

theorem print_flattened_breakingTexts : breakingTexts.flattened ≠ breakingTexts ∧
    breakingTexts.toGraph.IsUnbroken ∧
    (∀ e ∈ breakingTexts.elements.values, ∀ s ∈ breakingTexts.dialect.bareTexts e, IsOneLine s) ∧
    (∀ e ∈ breakingTexts.elements.values, breakingTexts.dialect.omitsLabel e → oneLine e.label = e.id →
      e.label = e.id) ∧
    ∃ s, (Registry.full).print breakingTexts = .ok s ∧ (Registry.full).print breakingTexts.flattened = .ok s ∧
      Text.pieces '\n' s.toList = (breakingTexts.dialect.header .usual breakingTexts.metadata ::
        Layout.usual.titleLines breakingTexts.metadata ++
        (breakingTexts.dialect.statements breakingTexts.toGraph).map Layout.usual.line).map String.toList ∧
      ∀ p ∈ breakingTexts.dialect.statements breakingTexts.toGraph, IsOneLine p.text := by
  have whole : breakingTexts.toGraph.IsUnbroken :=
    ⟨by decide +kernel, by decide +kernel, by decide +kernel⟩
  have bare : ∀ e ∈ breakingTexts.elements.values, ∀ s ∈ breakingTexts.dialect.bareTexts e, IsOneLine s :=
    fun _ _ _ none => absurd none List.not_mem_nil
  have named : ∀ e ∈ breakingTexts.elements.values, breakingTexts.dialect.omitsLabel e →
      oneLine e.label = e.id → e.label = e.id := by decide +kernel
  exact ⟨by decide +kernel, whole, bare, named, print_flattened whole bare named .usual⟩

/-- The name of an attribute is printed as it stands: this one ends the entity and starts another. -/
def breakingName : Diagram where
  elements := .ofList [("A", (Element.node .epoch "A" "A").setProperty Entities.attributesKey
    (.arr [.obj [("type", .str "string"), ("name", .str "x\n\x7d\nB \x7b\nstring y")]]))]
  connections := ∅
  dialect := .entities
  metadata := .create .epoch

/-- A name with a line break is printed in another way than on one line. -/
theorem print_flattened_breakingName : breakingName.toGraph.IsUnbroken ∧
    (∀ key ∈ breakingName.elements.keys, IsOneLine key) ∧ print breakingName.flattened ≠ print breakingName :=
  ⟨⟨by decide +kernel, by decide +kernel, by decide +kernel⟩, by decide +kernel, by decide +kernel⟩

end DiagramText
