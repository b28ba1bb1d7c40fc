import DiagramText.Proofs.Classes.Line
import DiagramText.Proofs.Classes.Reading
import DiagramText.Proofs.Formatting
import DiagramText.Proofs.Graph.Contents
import DiagramText.Proofs.Reading

/-! Class source carries the diagram. Each class is read back as its head, its members one after the
other and the brace that ends them; then each relation joins two classes that are there. -/
namespace DiagramText.Classes

open Text (IsWord IsQuotable)

/-! ### What source shows -/

/-- What source shows of a class. -/
structure Profile where
  name : String
  label : String
  stereotype : Option String
  attributes : List String
  methods : List String
deriving DecidableEq, Repr

def profile (e : Element) : Profile :=
  ⟨e.id, e.label, e.property? stereotypeKey, e.listed attributesKey, e.listed methodsKey⟩

namespace Profile

/-- What the lines of the body say. -/
def members (p : Profile) : List Member :=
  p.stereotype.toList.map .stereotype ++ (p.attributes.map .attribute ++ p.methods.map .method)

/-- A class that source can carry. -/
structure IsTextual (p : Profile) : Prop where
  word : IsWord p.name
  filled : p.label ≠ ""
  quotable : IsQuotable p.label
  members : ∀ m ∈ p.members, m.IsTextual

instance (p : Profile) : Decidable p.IsTextual :=
  decidable_of_iff (IsWord p.name ∧ p.label ≠ "" ∧ IsQuotable p.label ∧ ∀ m ∈ p.members, m.IsTextual)
    ⟨fun ⟨w, f, q, m⟩ => ⟨w, f, q, m⟩, fun h => ⟨h.word, h.filled, h.quotable, h.members⟩⟩

def add (p : Profile) : Member → Profile
  | .attribute text => { p with attributes := p.attributes ++ [text] }
  | .method text => { p with methods := p.methods ++ [text] }
  | .stereotype text => { p with stereotype := some text }

theorem foldl_add_attributes (p : Profile) (texts : List String) :
    (texts.map Member.attribute).foldl add p = { p with attributes := p.attributes ++ texts } := by
  induction texts generalizing p with
  | nil => simp
  | cons text texts ih => rw [List.map_cons, List.foldl_cons, ih, add, List.append_assoc]; rfl

theorem foldl_add_methods (p : Profile) (texts : List String) :
    (texts.map Member.method).foldl add p = { p with methods := p.methods ++ texts } := by
  induction texts generalizing p with
  | nil => simp
  | cons text texts ih => rw [List.map_cons, List.foldl_cons, ih, add, List.append_assoc]; rfl

/-- The members make up all of a profile but its name and label. -/
theorem foldl_add_members (p : Profile) :
    p.members.foldl add ⟨p.name, p.label, none, [], []⟩ = p := by
  obtain ⟨name, label, stereotype, attributes, methods⟩ := p
  rw [members, List.foldl_append, List.foldl_append, foldl_add_attributes, foldl_add_methods]
  cases stereotype <;> rfl

end Profile

theorem profile_record (m : Member) (e : Element) :
    profile (Draft.record m e) = (profile e).add m := by
  have apart : attributesKey ≠ methodsKey ∧ stereotypeKey ≠ attributesKey ∧
      stereotypeKey ≠ methodsKey := by decide
  match m with
  | .attribute text =>
    simp only [Draft.record, profile, Profile.add, Graph.append_id, Element.append_label,
      Element.listed_append, Element.listed_append_of_ne (Ne.symm apart.1),
      Element.property?_append_of_ne apart.2.1]
  | .method text =>
    simp only [Draft.record, profile, Profile.add, Graph.append_id, Element.append_label,
      Element.listed_append, Element.listed_append_of_ne apart.1,
      Element.property?_append_of_ne apart.2.2]
  | .stereotype text =>
    simp only [Draft.record, profile, Profile.add, Element.property?_setProperty,
      Element.listed_setProperty_of_ne (Ne.symm apart.2.1),
      Element.listed_setProperty_of_ne (Ne.symm apart.2.2)]
    rfl

theorem profile_foldl_record (ms : List Member) (e : Element) :
    profile (ms.foldl (fun e m => Draft.record m e) e) = ms.foldl Profile.add (profile e) := by
  induction ms generalizing e with
  | nil => rfl
  | cons m ms ih => rw [List.foldl_cons, ih, profile_record, List.foldl_cons]

/-- A class diagram that source can carry. -/
structure IsTextual (g : Graph) : Prop where
  keyed : ∀ p ∈ g.elements.entries, p.1 = p.2.id
  classes : ∀ e ∈ g.elements.values, (profile e).IsTextual
  joined : g.Closed
  relations : ∀ c ∈ g.connections.values, (tie c).IsTextual

/-! ### The printed lines -/

theorem bodyTexts_eq {e : Element} (textual : (profile e).IsTextual) :
    bodyTexts e = (profile e).members.map Member.text := by
  have stereotype : (e.property? stereotypeKey).bind Reader.nonEmpty = e.property? stereotypeKey := by
    cases given : e.property? stereotypeKey with
    | none => rfl
    | some s =>
      have body : IsBodyText s := textual.members (.stereotype s) (by simp [Profile.members, profile, given])
      exact if_neg body.filled
  simp [bodyTexts, stereotype, Profile.members, profile, Member.text, Function.comp_def]
  cases e.property? stereotypeKey <;> rfl

theorem classLines_eq_of_profile (layout : Layout) (e f : Element) (same : profile e = profile f) :
    classLines layout e = classLines layout f := by
  simp only [profile, Profile.mk.injEq] at same
  obtain ⟨name, label, stereotype, attributes, methods⟩ := same
  unfold classLines bodyTexts headText
  rw [name, label, stereotype, attributes, methods]

theorem relationText_eq_of_tie (c d : Connection) (same : tie c = tie d) :
    relationText c = relationText d := by
  simp only [tie, Tie.mk.injEq] at same
  obtain ⟨source, target, kind, label, left, right⟩ := same
  unfold relationText Connection.hasLabel
  rw [source, target, kind, label, left, right]

/-- The lines of the body of class source. -/
def sourceLines (layout : Layout) (g : Graph) : List String :=
  g.elements.values.flatMap (classLines layout) ++
    g.connections.values.map fun c => layout.indented 1 (relationText c)

/-- What is printed depends on the profiles and ties alone. -/
theorem sourceLines_eq (layout : Layout) {g h : Graph}
    (classes : g.elements.values.map profile = h.elements.values.map profile)
    (relations : g.connections.values.map tie = h.connections.values.map tie) :
    sourceLines layout g = sourceLines layout h := by
  rw [sourceLines, sourceLines, List.flatMap_def, List.flatMap_def,
    map_eq_of_view (classLines_eq_of_profile layout) classes,
    map_eq_of_view (fun c d same => congrArg (layout.indented 1) (relationText_eq_of_tie c d same)) relations]

/-- The head of a class with the brace that opens its body. -/
theorem says_opened {e : Element} (textual : (profile e).IsTextual) :
    Says (headText e ++ " \x7b") (.declare e.id (shownLabel e) (some "")) :=
  says_head textual.word textual.quotable (.brace [] (by decide)) (by decide) (by simp)

theorem says_alone {e : Element} (textual : (profile e).IsTextual) :
    Says (headText e) (.declare e.id (shownLabel e) none) :=
  says_head textual.word textual.quotable .none (by decide) (by simp)

theorem isStatement_brace : Source.IsStatement "\x7d".toList := ⟨by decide, by decide, by decide⟩

theorem isStatement_classLines (layout : Layout) {e : Element} (textual : (profile e).IsTextual) :
    ∀ line ∈ classLines layout e, Source.IsStatement line.toList := by
  unfold classLines
  split
  · rw [List.forall_mem_singleton]
    exact (says_alone textual).isStatement.indented layout 1
  · simp only [bodyTexts_eq textual, List.forall_mem_append, List.forall_mem_singleton,
      List.forall_mem_map]
    exact ⟨⟨(says_opened textual).isStatement.indented layout 1,
      fun m there => (textual.members m there).adds.statement.indented layout 2⟩,
      isStatement_brace.indented layout 1⟩

/-! ### The lines of a class read back -/

namespace Draft

variable {now : Instant} {g : Graph} {layout : Layout} {name : String}

theorem readLine_trimmed_indented (d : Draft) (depth : Nat) (line : String) :
    d.readLine now (Text.trimmed (layout.indented depth line)) = d.readLine now line := by
  unfold readLine
  rw [layout.trim_trimmed_indented]

theorem readLine_said {line : String} {s : Statement} (said : Says line s) :
    readLine now ⟨g, none⟩ line = apply now g s := by
  unfold readLine
  dsimp only
  rw [Statement.ofText?, Text.trim_trim, said.whole?]

theorem readLine_adds {line : String} {m : Member} (adds : Adds line m) (e : Element) :
    readLine now ⟨g.withElement name e, some name⟩ line =
      ⟨g.withElement name (record m e), some name⟩ := by
  have uncut : Text.cut? '\x7d' (Text.trim line.toList) = none :=
    Text.cut?_eq_none fun h => adds.brace (Text.mem_of_mem_trim h)
  unfold readLine
  dsimp only
  rw [uncut]
  simp only [addMember, adds.reads, ensure,
    Graph.ensure_of_hasElement (Graph.hasElement_withElement e), Graph.modifyElement_withElement]

theorem foldl_readLine_adds {ms : List Member} (textual : ∀ m ∈ ms, m.IsTextual) (e : Element) :
    (ms.map Member.text).foldl (readLine now) ⟨g.withElement name e, some name⟩ =
      ⟨g.withElement name (ms.foldl (fun e m => record m e) e), some name⟩ := by
  induction ms generalizing e with
  | nil => rfl
  | cons m ms ih =>
    rw [List.forall_mem_cons] at textual
    rw [List.map_cons, List.foldl_cons, readLine_adds textual.1.adds, ih textual.2, List.foldl_cons]

/-- The closing brace alone ends the body and adds nothing. -/
theorem readLine_brace : readLine now ⟨g, some name⟩ "\x7d" = ⟨g, none⟩ := rfl

/-- The class that the head of a class makes. -/
def named (now : Instant) (e : Element) (index : Nat) : Element :=
  { newClass now e.id index with label := e.label }

theorem profile_named (e : Element) (index : Nat) :
    profile (named now e index) = ⟨e.id, e.label, none, [], []⟩ := rfl

/-- A head makes a class that is new, and opens its body with a brace. -/
theorem apply_declare {e : Element} (fresh : e.id ∉ g.elements.keys) (filled : e.label ≠ "") :
    apply now g (.declare e.id (shownLabel e) none) =
        ⟨g.withElement e.id (named now e g.elements.size), none⟩ ∧
      apply now g (.declare e.id (shownLabel e) (some "")) =
        ⟨g.withElement e.id (named now e g.elements.size), some e.id⟩ := by
  have label : (shownLabel e).getD e.id = e.label := by
    unfold shownLabel
    split
    · rfl
    · next other => exact (not_not.1 fun apart => other ⟨filled, apart⟩).symm
  have made : (ensure now g e.id).modifyElement e.id
      (fun x => { x with label := (shownLabel e).getD x.label }) =
        g.withElement e.id (named now e g.elements.size) := by
    rw [ensure, Graph.ensure_of_fresh fresh, Graph.modifyElement_withElement, named, ← label]
    rfl
  exact ⟨congrArg (Draft.mk · none) made, congrArg (Draft.mk · (some e.id)) made⟩

/-- The lines of a class that is new add it with its profile. -/
theorem foldl_readLine_class {e : Element} (fresh : e.id ∉ g.elements.keys)
    (textual : (profile e).IsTextual) :
    ∃ e', profile e' = profile e ∧
      ((classLines layout e).map Text.trimmed).foldl (readLine now) ⟨g, none⟩ =
        ⟨g.withElement e.id e', none⟩ := by
  obtain ⟨alone, opened⟩ := @apply_declare now g e fresh textual.filled
  refine ⟨(profile e).members.foldl (fun e m => record m e) (named now e g.elements.size), ?_, ?_⟩
  · rw [profile_foldl_record, profile_named]
    exact (profile e).foldl_add_members
  · unfold classLines
    split
    · next none =>
      have noMembers : (profile e).members = [] := by
        rw [bodyTexts_eq textual, List.map_eq_nil_iff] at none
        exact none
      rw [noMembers, List.map_singleton, List.foldl_cons, List.foldl_nil, readLine_trimmed_indented,
        readLine_said (says_alone textual), alone]
      rfl
    · rw [List.map_append, List.map_append, List.foldl_append, List.foldl_append, List.map_singleton,
        List.map_singleton, List.foldl_cons, List.foldl_nil, List.foldl_cons, List.foldl_nil,
        readLine_trimmed_indented, readLine_trimmed_indented, readLine_said (says_opened textual), opened,
        Layout.foldl_trimmed_indented readLine_trimmed_indented, bodyTexts_eq textual,
        foldl_readLine_adds textual.members, readLine_brace]

/-! ### The lines of the relations read back -/

/-- What the line of a relation makes a connection from. -/
def joint (c : Connection) : Graph.Joint :=
  ⟨c.source, c.target, (Relation.ofKey c.kind).key, (Reader.nonEmpty c.label).getD "",
    cardinalities (c.property? sourceCardinalityKey) (c.property? targetCardinalityKey)⟩

theorem tie_joint {c : Connection} (textual : (tie c).IsTextual) (id : String) :
    tie ((joint c).link now id) = tie c := by
  have label : (Reader.nonEmpty c.label).getD "" = c.label := by
    unfold Reader.nonEmpty
    split
    · next none => exact none.symm
    · rfl
  have kind : (Relation.ofKey c.kind).key = c.kind := Relation.ofKey_key textual.known
  simp only [tie, joint, Graph.Joint.link, Graph.linkAs, Connection.create, Connection.property?, label, kind]
  cases (c.properties.get? sourceCardinalityKey).bind Json.string? <;>
    cases (c.properties.get? targetCardinalityKey).bind Json.string? <;> rfl

theorem readLine_relation {c : Connection} (joined : g.joins c) (words : IsWord c.source ∧ IsWord c.target)
    (textual : (tie c).IsTextual) :
    readLine now ⟨g, none⟩ (Text.trimmed (layout.indented 1 (relationText c))) =
      ⟨g.connectAll now [joint c], none⟩ := by
  rw [Graph.joins, Bool.and_eq_true] at joined
  have ends : ensure now (ensure now g c.source) c.target = g := by
    rw [ensure, ensure, Graph.ensure_of_hasElement joined.1, Graph.ensure_of_hasElement joined.2]
  rw [readLine_trimmed_indented, readLine_said (says_relationText words.1 words.2 textual),
    Tie.statement, apply, tie, ends]
  rfl

end Draft

/-! ### The whole source -/

theorem words_of_joins {g : Graph} (textual : IsTextual g) {c : Connection} (joined : g.joins c) :
    IsWord c.source ∧ IsWord c.target :=
  Graph.ends_of_joins textual.keyed (fun e there => (textual.classes e there).word) joined

theorem isStatement_sourceLines (layout : Layout) {g : Graph} (textual : IsTextual g) :
    ∀ line ∈ sourceLines layout g, Source.IsStatement line.toList := by
  rw [sourceLines, List.forall_mem_append, List.forall_mem_map]
  constructor
  · intro line h
    obtain ⟨e, there, inside⟩ := List.mem_flatMap.1 h
    exact isStatement_classLines layout (textual.classes e there) line inside
  · intro c there
    obtain ⟨source, target⟩ := words_of_joins textual (textual.joined c there)
    exact (says_relationText source target (textual.relations c there)).isStatement.indented layout 1

/-- Read again, the lines of a diagram give its classes and relations in their order. -/
theorem read_sourceLines (now : Instant) (layout : Layout) {g : Graph} (textual : IsTextual g) :
    (read now ((sourceLines layout g).map Text.trimmed)).elements.values.map profile =
        g.elements.values.map profile ∧
      (read now ((sourceLines layout g).map Text.trimmed)).connections.values.map tie =
        g.connections.values.map tie := by
  have block : ∀ (h : Graph), ∀ e ∈ g.elements.values, e.id ∉ h.elements.keys →
      ∃ e', profile e' = profile e ∧ ((classLines layout e).map Text.trimmed).foldl (Draft.readLine now)
        ⟨h, none⟩ = ⟨h.withElement e.id e', none⟩ :=
    fun h e there fresh => Draft.foldl_readLine_class fresh (textual.classes e there)
  have each : ∀ (h : Graph), ∀ c ∈ g.connections.values, h.joins c →
      Draft.readLine now ⟨h, none⟩ (Text.trimmed (layout.indented 1 (relationText c))) =
        ⟨h.connectAll now [Draft.joint c], none⟩ :=
    fun h c there joined => Draft.readLine_relation joined
      (words_of_joins textual (textual.joined c there)) (textual.relations c there)
  obtain ⟨h, rebuilt, classes, relations⟩ := Graph.foldl_rebuild textual.keyed textual.joined block each fun c there => Draft.tie_joint (textual.relations c there)
  have whole : read now ((sourceLines layout g).map Text.trimmed) = h := by
    rw [read, sourceLines, List.map_append, List.map_flatMap, List.map_map]
    exact congrArg Draft.graph rebuilt
  rw [whole]
  exact ⟨classes, relations⟩

theorem isHeader : Source.IsHeader "classDiagram" :=
  ⟨⟨by decide, by decide, by decide⟩, by decide, by decide⟩

theorem dialectOf_header : (Registry.full).dialectOf "classDiagram" = .ok .classes := rfl

/-- Class source carries the diagram: printed and read again, it has the same classes and relations
in the same order, and is printed as the same source. -/
theorem parse_print_same_classes (later : Instant) {d : Diagram} (classes : d.dialect = .classes)
    (textual : IsTextual d.toGraph) :
    ∃ d', parse later (DiagramText.print d) = .ok d' ∧ d'.dialect = .classes ∧
      d'.elements.values.map profile = d.elements.values.map profile ∧
      d'.connections.values.map tie = d.connections.values.map tie ∧
      DiagramText.print d' = DiagramText.print d := by
  obtain ⟨profiles, ties⟩ := read_sourceLines later .usual textual
  obtain ⟨d', parsed, dialect, graph, printed⟩ := parse_print_of_lines later classes isHeader
    dialectOf_header (fun g m => rfl) (isStatement_sourceLines .usual textual)
    (sourceLines_eq .usual profiles ties)
  refine ⟨d', parsed, dialect, ?_, ?_, printed⟩
  · exact graph ▸ profiles
  · exact graph ▸ ties

/-! ### One diagram -/

/-- A class of every kind of member, called like the keyword, and one that is composed of others. -/
def sample : Diagram := .ofGraph .classes
  ⟨⟨[("class", [Member.stereotype "a > b", .attribute "+String <<name", .method "say(\"go\"): %%"].foldl
        (fun e m => Draft.record m e) { Draft.newClass .epoch "class" 0 with label := "A \"class\"" }),
      ("part", Draft.newClass .epoch "part" 1)], by decide⟩,
    ⟨[("c", { Connection.create .epoch "c" "class" "part" "composition" with
        label := "holds: many", properties := .ofList (Draft.cardinalities (some "1") (some "\"*\"")) })],
      by decide⟩⟩ (.create .epoch)

theorem isTextual_sample : IsTextual sample.toGraph where
  keyed := by decide
  classes := by decide
  joined := by unfold Graph.Closed; decide
  relations := by decide

theorem parse_print_same_classes_sample : ∃ d', parse .epoch (DiagramText.print sample) = .ok d' ∧
    d'.dialect = .classes ∧ d'.elements.values.map profile = sample.elements.values.map profile ∧
      d'.connections.values.map tie = sample.connections.values.map tie ∧
      DiagramText.print d' = DiagramText.print sample :=
  parse_print_same_classes .epoch rfl isTextual_sample

end DiagramText.Classes
