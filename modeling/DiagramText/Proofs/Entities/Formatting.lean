import DiagramText.Proofs.Entities.Line
import DiagramText.Proofs.Entities.Reading
import DiagramText.Proofs.Formatting
import DiagramText.Proofs.Graph.Contents

/-! Entity-relationship source carries the diagram. Each entity is read back as its name, its attributes
one after the other and the brace that ends them; then each relationship joins two entities that are
there. -/
namespace DiagramText.Entities

/-! ### What source shows -/

/-- An attribute as it is stored. -/
def attribute? (a : Json) : Option Attribute := do
  let dataType ← (a.field? "type").bind Json.string?
  let name ← (a.field? "name").bind Json.string?
  let keys := ((a.field? "keys").map Json.strings).getD []
  pure { dataType, name, keys, comment := (a.field? "comment").bind Json.string? }

/-- What source shows of an entity; what is stored as an attribute and is none has no place. -/
structure Entity where
  name : String
  attributes : List (Option Attribute)
deriving DecidableEq, Repr

def storedAttributes (e : Element) : List Json :=
  ((e.properties.get? attributesKey).bind Json.items?).getD []

def entityOf (e : Element) : Entity := ⟨e.id, (storedAttributes e).map attribute?⟩

/-- An entity that source can carry. -/
structure Entity.IsTextual (e : Entity) : Prop where
  name : IsName e.name
  attributes : ∀ o ∈ e.attributes, ∃ a ∈ o, a.IsTextual

instance (e : Entity) : Decidable e.IsTextual :=
  decidable_of_iff (IsName e.name ∧ ∀ o ∈ e.attributes, ∃ a ∈ o, a.IsTextual)
    ⟨fun ⟨n, a⟩ => ⟨n, a⟩, fun h => ⟨h.name, h.attributes⟩⟩

/-- A stored attribute is the attribute that it was stored from. -/
@[simp] theorem attribute?_toJson (a : Attribute) : attribute? a.toJson = some a := by
  obtain ⟨dataType, name, keys, comment⟩ := a
  cases comment <;>
    simp [attribute?, Attribute.toJson, Json.field?, List.lookup_cons, Json.string?, Json.strings_ofStrings]

theorem filterMap_toJson (attributes : List Attribute) :
    (attributes.map Attribute.toJson).filterMap attribute? = attributes := by
  rw [List.filterMap_map]
  exact (List.filterMap_congr fun a _ => attribute?_toJson a).trans List.filterMap_some

theorem attributeText?_eq (a : Json) : attributeText? a = (attribute? a).map Attribute.text := by
  unfold attributeText? attribute?
  cases (a.field? "type").bind Json.string? with
  | none => rfl
  | some dataType =>
    cases (a.field? "name").bind Json.string? with
    | none => rfl
    | some name => cases (a.field? "comment").bind Json.string? <;> rfl

theorem storedAttributes_append (e : Element) (a : Json) :
    storedAttributes (e.append attributesKey a) = storedAttributes e ++ [a] := by
  cases found : e.properties.get? attributesKey with
  | none => simp [storedAttributes, Element.append, found, Element.setProperty, Table.get?_insert, Json.items?]
  | some j =>
    cases j <;>
      simp [storedAttributes, Element.append, found, Element.setProperty, Table.get?_insert, Json.items?]

/-- An entity-relationship diagram that source can carry. -/
structure IsTextual (g : Graph) : Prop where
  keyed : ∀ p ∈ g.elements.entries, p.1 = p.2.id
  entities : ∀ e ∈ g.elements.values, (entityOf e).IsTextual
  joined : g.Closed
  relationships : ∀ c ∈ g.connections.values, (bond c).IsTextual

/-! ### The printed lines -/

/-- The attributes of an entity that has no others among what it stores. -/
def attributesOf (e : Element) : List Attribute := (storedAttributes e).filterMap attribute?

theorem attributeTexts_eq (e : Element) : attributeTexts e = (attributesOf e).map Attribute.text := by
  rw [attributeTexts, ← storedAttributes, attributesOf, List.map_filterMap]
  exact List.filterMap_congr fun a _ => attributeText?_eq a

theorem Entity.IsTextual.stored {e : Element} (textual : (entityOf e).IsTextual) :
    (storedAttributes e).map attribute? = (attributesOf e).map some ∧
      ∀ a ∈ attributesOf e, a.IsTextual := by
  have each : ∀ j ∈ storedAttributes e, ∃ a, attribute? j = some a ∧ a.IsTextual :=
    fun j there => textual.attributes _ (List.mem_map_of_mem there)
  unfold attributesOf
  revert each
  induction storedAttributes e with
  | nil => simp
  | cons j js ih =>
    intro each
    rw [List.forall_mem_cons] at each
    obtain ⟨⟨a, read, good⟩, others⟩ := each
    obtain ⟨same, all⟩ := ih others
    rw [List.filterMap_cons_some read, List.map_cons, List.map_cons, read, same, List.forall_mem_cons]
    exact ⟨rfl, good, all⟩

theorem entityLines_eq_of_entityOf (layout : Layout) (e f : Element) (same : entityOf e = entityOf f) :
    entityLines layout e = entityLines layout f := by
  simp only [entityOf, Entity.mk.injEq] at same
  obtain ⟨name, attributes⟩ := same
  have texts : attributeTexts e = attributeTexts f := by
    have alike := congrArg (List.filterMap id) attributes
    rw [List.filterMap_map, List.filterMap_map] at alike
    rw [attributeTexts_eq, attributeTexts_eq]
    exact congrArg (List.map Attribute.text) alike
  unfold entityLines
  rw [texts, name]

theorem relationshipText_eq_of_bond (c d : Connection) (same : bond c = bond d) :
    relationshipText c = relationshipText d := by
  simp only [bond, Bond.mk.injEq] at same
  obtain ⟨source, target, kind, left, right, label⟩ := same
  unfold relationshipText cardinalityOf
  rw [source, target, kind, left, right, label]

/-- The lines of the body of entity-relationship source. -/
def sourceLines (layout : Layout) (g : Graph) : List String :=
  g.elements.values.flatMap (entityLines layout) ++
    g.connections.values.map fun c => layout.indented 1 (relationshipText c)

/-- What is printed depends on the entities and bonds alone. -/
theorem sourceLines_eq (layout : Layout) {g h : Graph}
    (entities : g.elements.values.map entityOf = h.elements.values.map entityOf)
    (relationships : g.connections.values.map bond = h.connections.values.map bond) :
    sourceLines layout g = sourceLines layout h := by
  rw [sourceLines, sourceLines, List.flatMap_def, List.flatMap_def,
    map_eq_of_view (entityLines_eq_of_entityOf layout) entities,
    map_eq_of_view (fun c d same => congrArg (layout.indented 1) (relationshipText_eq_of_bond c d same))
      relationships]

theorem says_alone {e : Element} (isName : IsName e.id) : Says e.id (.entity e.id [] false) :=
  says_entity isName .none (by decide) (by simp)

/-- The name of an entity with the brace that opens its block. -/
theorem says_opened {e : Element} (isName : IsName e.id) : Says (e.id ++ " \x7b") (.entity e.id [] true) :=
  says_entity isName .brace (by decide) (by simp)

theorem isStatement_brace : Source.IsStatement "\x7d".toList := ⟨by decide, by decide, by decide⟩

theorem isStatement_entityLines (layout : Layout) {e : Element} (textual : (entityOf e).IsTextual) :
    ∀ line ∈ entityLines layout e, Source.IsStatement line.toList := by
  unfold entityLines
  split
  · rw [List.forall_mem_singleton]
    exact (says_alone textual.name).isStatement.indented layout 1
  · simp only [attributeTexts_eq, List.forall_mem_append, List.forall_mem_singleton, List.forall_mem_map]
    exact ⟨⟨(says_opened textual.name).isStatement.indented layout 1,
      fun a there => (adds_attribute (textual.stored.2 a there)).statement.indented layout 2⟩,
      isStatement_brace.indented layout 1⟩

/-! ### The lines of an entity read back -/

namespace Draft

variable {now : Instant} {g : Graph} {layout : Layout} {name : String}

theorem readLine_trimmed_indented (d : Draft) (depth : Nat) (line : String) :
    d.readLine now (Text.trimmed (layout.indented depth line)) = d.readLine now line := by
  unfold readLine
  rw [layout.trim_trimmed_indented]

theorem readLine_said {line : String} {s : Statement} (said : Says line s) :
    readLine now ⟨g, none⟩ line = apply now g s := by
  unfold readLine
  dsimp only
  rw [Statement.ofText?, Text.trim_trim, said.whole?]

/-- A line of a block without a closing brace adds what it reads and leaves the block open. -/
theorem readLine_inside {line : String} (free : '\x7d' ∉ line.toList) :
    readLine now ⟨g, some name⟩ line = ⟨addLine g name (Text.trim line.toList), some name⟩ := by
  have uncut : Text.cut? '\x7d' (Text.trim line.toList) = none :=
    Text.cut?_eq_none fun h => free (Text.mem_of_mem_trim h)
  unfold readLine
  dsimp only
  rw [uncut]

/-- The lines of a block add their attributes one after the other. -/
theorem foldl_readLine_inside {lines : List String} {attributes : List Attribute}
    (read : List.Forall₂ (fun line a => attributes? (Text.trim line.toList) = some [a]) lines attributes)
    (free : ∀ line ∈ lines, '\x7d' ∉ line.toList) :
    lines.foldl (readLine now) ⟨g, some name⟩ = ⟨addAttributes g name attributes, some name⟩ := by
  induction read generalizing g with
  | nil => rfl
  | cons first _ ih =>
    rw [List.forall_mem_cons] at free
    rw [List.foldl_cons, readLine_inside free.1, addLine, first, ih free.2]
    rfl

/-- Attributes are stored behind those that are there. -/
theorem addAttributes_withElement (g : Graph) (name : String) (e : Element) (attributes : List Attribute) :
    ∃ e', e'.id = e.id ∧ storedAttributes e' = storedAttributes e ++ attributes.map Attribute.toJson ∧
      addAttributes (g.withElement name e) name attributes = g.withElement name e' := by
  induction attributes generalizing e with
  | nil => exact ⟨e, rfl, by simp, rfl⟩
  | cons a as ih =>
    obtain ⟨e', own, stored, added⟩ := ih (e.append attributesKey a.toJson)
    refine ⟨e', own.trans (Graph.append_id ..), ?_, ?_⟩
    · rw [stored, storedAttributes_append, List.append_assoc, List.map_cons, List.singleton_append]
    · rw [← added, addAttributes, List.foldl_cons, Graph.appendTo, Graph.modifyElement_withElement, addAttributes]

/-- The attributes of an entity that is new are all that it stores. -/
theorem storedAttributes_addAttributes (now : Instant) (name : String) (attributes : List Attribute) :
    ((addAttributes (ensure now .empty name) name attributes).elements.get? name).map storedAttributes =
      some (attributes.map Attribute.toJson) := by
  have fresh : ensure now .empty name = Graph.empty.withElement name (newEntity now name 0) :=
    Graph.ensure_of_fresh List.not_mem_nil
  obtain ⟨e, -, stored, added⟩ := addAttributes_withElement .empty name (newEntity now name 0) attributes
  have none : storedAttributes (newEntity now name 0) = [] := rfl
  rw [fresh, added, Graph.withElement, Table.get?_insert, if_pos rfl, Option.map_some, stored, none, List.nil_append]

/-- The lines of attributes that source can carry store them. -/
theorem foldl_readLine_adds {as : List Attribute} (textual : ∀ a ∈ as, a.IsTextual) (e : Element) :
    ∃ e', e'.id = e.id ∧ storedAttributes e' = storedAttributes e ++ as.map Attribute.toJson ∧
      (as.map Attribute.text).foldl (readLine now) ⟨g.withElement name e, some name⟩ =
        ⟨g.withElement name e', some name⟩ := by
  obtain ⟨e', own, stored, added⟩ := addAttributes_withElement g name e as
  have read : List.Forall₂ (fun line a => attributes? (Text.trim line.toList) = some [a]) (as.map Attribute.text) as :=
    List.forall₂_map_left_iff.2 (List.forall₂_same.2 fun a there => (adds_attribute (textual a there)).reads)
  have free : ∀ line ∈ as.map Attribute.text, '\x7d' ∉ line.toList :=
    List.forall_mem_map.2 fun a there => (adds_attribute (textual a there)).brace
  exact ⟨e', own, stored, by rw [foldl_readLine_inside read free, added]⟩

/-- The closing brace alone ends the block and adds nothing. -/
theorem readLine_brace : readLine now ⟨g, some name⟩ "\x7d" = ⟨g, none⟩ := rfl

/-- The lines of an entity that is new add it with its attributes. -/
theorem foldl_readLine_entity {e : Element} (fresh : e.id ∉ g.elements.keys)
    (textual : (entityOf e).IsTextual) :
    ∃ e', entityOf e' = entityOf e ∧
      ((entityLines layout e).map Text.trimmed).foldl (readLine now) ⟨g, none⟩ =
        ⟨g.withElement e.id e', none⟩ := by
  have alone : apply now g (.entity e.id [] false) = ⟨g.withElement e.id (newEntity now e.id g.elements.size), none⟩ :=
    congrArg (Draft.mk · none) (Graph.ensure_of_fresh fresh)
  have opened : apply now g (.entity e.id [] true) =
      ⟨g.withElement e.id (newEntity now e.id g.elements.size), some e.id⟩ :=
    congrArg (Draft.mk · (some e.id)) (Graph.ensure_of_fresh fresh)
  have stored := textual.stored
  unfold entityLines
  split
  · next none =>
    rw [attributeTexts_eq, List.map_eq_nil_iff] at none
    refine ⟨newEntity now e.id g.elements.size, ?_, ?_⟩
    · rw [entityOf, entityOf, stored.1, none]
      rfl
    · rw [List.map_singleton, List.foldl_cons, List.foldl_nil, readLine_trimmed_indented,
        readLine_said (says_alone textual.name), alone]
  · obtain ⟨e', own, kept, read⟩ := @foldl_readLine_adds now g e.id _ stored.2 (newEntity now e.id g.elements.size)
    refine ⟨e', ?_, ?_⟩
    · have none : storedAttributes (newEntity now e.id g.elements.size) = [] := rfl
      rw [entityOf, entityOf, own, kept, stored.1, none, List.nil_append, List.map_map]
      exact congrArg (Entity.mk e.id) (List.map_congr_left fun a _ => attribute?_toJson a)
    · rw [List.map_append, List.map_append, List.foldl_append, List.foldl_append, List.map_singleton,
        List.map_singleton, List.foldl_cons, List.foldl_nil, List.foldl_cons, List.foldl_nil,
        readLine_trimmed_indented, readLine_trimmed_indented, readLine_said (says_opened textual.name),
        opened, Layout.foldl_trimmed_indented readLine_trimmed_indented, attributeTexts_eq, read,
        readLine_brace]

/-! ### The lines of the relationships read back -/

/-- What the line of a relationship makes a connection from. -/
def joint (c : Connection) : Graph.Joint :=
  ⟨c.source, c.target, (Line.ofKey c.kind).key, c.label,
    [(leftKey, .str (cardinalityOf c leftKey).key), (rightKey, .str (cardinalityOf c rightKey).key)]⟩

theorem bond_joint {c : Connection} (textual : (bond c).IsTextual) (id : String) :
    bond ((joint c).link now id) = bond c := by
  obtain ⟨line, -, kind⟩ := List.mem_map.1 textual.kind
  obtain ⟨left, -, isLeft⟩ := textual.left
  obtain ⟨right, -, isRight⟩ := textual.right
  have sameKind : (Line.ofKey c.kind).key = c.kind := by
    rw [show c.kind = line.key from kind.symm, Line.ofKey_key]
  have sameLeft : some (cardinalityOf c leftKey).key = c.property? leftKey := by
    rw [cardinalityOf, show c.property? leftKey = some left.key from isLeft]
    simp [Cardinality.ofKey_key]
  have sameRight : some (cardinalityOf c rightKey).key = c.property? rightKey := by
    rw [cardinalityOf, show c.property? rightKey = some right.key from isRight]
    simp [Cardinality.ofKey_key]
  rw [bond, bond, ← sameLeft, ← sameRight]
  simp only [joint, Graph.Joint.link, Graph.linkAs, Connection.create, sameKind]
  rfl

theorem readLine_relationship {c : Connection} (joined : g.joins c) (names : IsName c.source ∧ IsName c.target) :
    readLine now ⟨g, none⟩ (relationshipText c) = ⟨g.connectAll now [joint (reread c)], none⟩ := by
  rw [Graph.joins, Bool.and_eq_true] at joined
  have ends : ensure now (ensure now g (reread c).source) (reread c).target = g := by
    rw [ensure, ensure, reread, Graph.ensure_of_hasElement joined.1, Graph.ensure_of_hasElement joined.2]
  rw [readLine_said (says_relationshipText names.1 names.2), relationshipStatement, apply, ends]
  rfl

end Draft

/-! ### The whole source -/

theorem names_of_joins {g : Graph} (textual : IsTextual g) {c : Connection} (joined : g.joins c) :
    IsName c.source ∧ IsName c.target :=
  Graph.ends_of_joins textual.keyed (fun e there => (textual.entities e there).name) joined

theorem isStatement_sourceLines (layout : Layout) {g : Graph} (textual : IsTextual g) :
    ∀ line ∈ sourceLines layout g, Source.IsStatement line.toList := by
  rw [sourceLines, List.forall_mem_append, List.forall_mem_map]
  constructor
  · intro line h
    obtain ⟨e, there, inside⟩ := List.mem_flatMap.1 h
    exact isStatement_entityLines layout (textual.entities e there) line inside
  · intro c there
    obtain ⟨source, target⟩ := names_of_joins textual (textual.joined c there)
    exact (says_relationshipText source target).isStatement.indented layout 1

/-- Read again, the lines of a diagram give its entities and relationships in their order. -/
theorem read_sourceLines (now : Instant) (layout : Layout) {g : Graph} (textual : IsTextual g) :
    (read now ((sourceLines layout g).map Text.trimmed)).elements.values.map entityOf =
        g.elements.values.map entityOf ∧
      (read now ((sourceLines layout g).map Text.trimmed)).connections.values.map bond =
        g.connections.values.map bond := by
  have block : ∀ (h : Graph), ∀ e ∈ g.elements.values, e.id ∉ h.elements.keys →
      ∃ e', entityOf e' = entityOf e ∧ ((entityLines layout e).map Text.trimmed).foldl (Draft.readLine now)
        ⟨h, none⟩ = ⟨h.withElement e.id e', none⟩ :=
    fun h e there fresh => Draft.foldl_readLine_entity fresh (textual.entities e there)
  have each : ∀ (h : Graph), ∀ c ∈ g.connections.values, h.joins c →
      Draft.readLine now ⟨h, none⟩ (Text.trimmed (layout.indented 1 (relationshipText c))) =
        ⟨h.connectAll now [Draft.joint (reread c)], none⟩ := fun h c there joined =>
    (Draft.readLine_trimmed_indented ..).trans
      (Draft.readLine_relationship joined (names_of_joins textual (textual.joined c there)))
  have seen : ∀ c ∈ g.connections.values, ∀ id, bond ((Draft.joint (reread c)).link now id) = bond c := by
    intro c there id
    rw [reread_eq_self (textual.relationships c there).label]
    exact Draft.bond_joint (textual.relationships c there) id
  obtain ⟨h, rebuilt, entities, relationships⟩ :=
    Graph.foldl_rebuild textual.keyed textual.joined block each seen
  have whole : read now ((sourceLines layout g).map Text.trimmed) = h := by
    rw [read, sourceLines, List.map_append, List.map_flatMap, List.map_map]
    exact congrArg Draft.graph rebuilt
  rw [whole]
  exact ⟨entities, relationships⟩

theorem isHeader : Source.IsHeader "erDiagram" :=
  ⟨⟨by decide, by decide, by decide⟩, by decide, by decide⟩

theorem dialectOf_header : (Registry.full).dialectOf "erDiagram" = .ok .entities := rfl

/-- Entity-relationship source carries the diagram: printed and read again, it has the same entities
and relationships in the same order, and is printed as the same source. -/
theorem parse_print_same_entities (later : Instant) {d : Diagram} (dialect : d.dialect = .entities)
    (textual : IsTextual d.toGraph) :
    ∃ d', parse later (DiagramText.print d) = .ok d' ∧ d'.dialect = .entities ∧
      d'.elements.values.map entityOf = d.elements.values.map entityOf ∧
      d'.connections.values.map bond = d.connections.values.map bond ∧
      DiagramText.print d' = DiagramText.print d := by
  obtain ⟨entities, relationships⟩ := read_sourceLines later .usual textual
  obtain ⟨d', parsed, same, graph, printed⟩ := parse_print_of_lines later dialect isHeader
    dialectOf_header (fun g m => rfl) (isStatement_sourceLines .usual textual)
    (sourceLines_eq .usual entities relationships)
  refine ⟨d', parsed, same, ?_, ?_, printed⟩
  · exact graph ▸ entities
  · exact graph ▸ relationships

/-! ### One diagram -/

/-- An entity of dashes with every kind of attribute, and one that is related to it. -/
def sample : Diagram := .ofGraph .entities
  ⟨⟨[("--", [Attribute.mk "%int(11)" "id" ["PK", "FK"] (some "the \"key\", always"),
        ⟨"text", "PK", [], none⟩].foldl (fun e a => e.append attributesKey a.toJson)
          (Draft.newEntity .epoch "--" 0)),
      ("line-item", Draft.newEntity .epoch "line-item" 1)], by decide⟩,
    ⟨[("c", { Connection.create .epoch "c" "--" "line-item" "non_identifying" with
        label := " has ",
        properties := .ofList [(leftKey, .str "exactly_one"), (rightKey, .str "zero_or_more")] })],
      by decide⟩⟩ (.create .epoch)

theorem isTextual_sample : IsTextual sample.toGraph where
  keyed := by decide
  entities := by decide
  joined := by unfold Graph.Closed; decide
  relationships := by decide

theorem parse_print_same_entities_sample : ∃ d', parse .epoch (DiagramText.print sample) = .ok d' ∧
    d'.dialect = .entities ∧ d'.elements.values.map entityOf = sample.elements.values.map entityOf ∧
      d'.connections.values.map bond = sample.connections.values.map bond ∧
      DiagramText.print d' = DiagramText.print sample :=
  parse_print_same_entities .epoch rfl isTextual_sample

end DiagramText.Entities
