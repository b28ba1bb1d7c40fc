import DiagramText.Diagram.Exchange
import DiagramText.Proofs.Graph.Building
import DiagramText.Proofs.Instant

/-! The exchange format loses nothing: what is decoded from the JSON of a diagram, an element or a
connection is what was written. JSON has no number for what is not finite, so the positions, sizes
and control points have to be; nothing is asked of ids, keys, labels, properties or times. -/
namespace DiagramText

/-! ### What a decoder gives back -/

namespace Json.Decoder

/-- Items that come back one by one come back as a list. -/
theorem mapM_map {α τ : Type} {d : τ → Option α} {f : α → τ} {as : List α}
    (each : ∀ a ∈ as, d (f a) = some a) : (as.map f).mapM d = some as := by
  induction as with
  | nil => rfl
  | cons a as ih =>
    rw [List.forall_mem_cons] at each
    simp [each.1, ih each.2]

variable {α : Type} {d : Decoder Json α} {f : α → Json}

@[simp] theorem string_str (s : String) : string (Json.str s) = some s := rfl

theorem float_ofFloat {x : Binary64} (finite : x.isFinite) :
    float (ofFloat x) = some x := by
  rw [ofFloat, if_pos finite]
  rfl

theorem word_ofNat {n : Nat} (fits : n ≤ maxWord) : word (ofNat n) = some n := by
  have range : 0 ≤ (n : Int) ∧ (n : Int) ≤ (maxWord : Int) := by omega
  exact if_pos range

theorem list_map {as : List α} (each : ∀ a ∈ as, d (f a) = some a) :
    list d (.arr (as.map f)) = some as := mapM_map each

/-- Values under keys come back under the same keys, in the same order. -/
theorem table_mapValues {t : Table α} (each : ∀ a ∈ t.values, d (f a) = some a) :
    table d (ofTable (t.mapValues f)) = some t := by
  have entry : ∀ p ∈ t.entries, (do let a ← d (f p.2); pure (p.1, a)) = some p := by
    intro p there
    rw [each p.2 (List.mem_map_of_mem there)]
    rfl
  have entries := mapM_map (d := fun q : String × Json => (do let a ← d q.2; pure (q.1, a)))
    (f := fun p => (p.1, f p.2)) entry
  show ((t.entries.map fun p => (p.1, f p.2)).mapM _ >>= fun es => pure (Table.ofList es)) = _
  rw [entries]
  exact congrArg some t.ofList_entries

theorem nullable_ofOption {o : Option α} (each : ∀ a, d (f a) = some a)
    (shown : ∀ a, f a ≠ .null) : nullable d (ofOption f o) = some o := by
  cases o with
  | none => rfl
  | some a =>
    have text := shown a
    have back := each a
    simp only [ofOption]
    cases same : f a with
    | null => exact absurd same text
    | _ => rw [same] at back; simp [nullable, back, Document.layer]

/-- A record that is written with all its fields, each of them once. -/
theorem fields_obj {names : List String} {fs : List (String × Json)} (all : fs.map Prod.fst = names)
    (distinct : names.Nodup) : fields names (.obj fs) = some fs := by
  have known : fs.filter (fun p => names.contains p.1) = fs := by
    rw [List.filter_eq_self]
    intro p there
    rw [List.contains_iff_mem, ← all]
    exact List.mem_map_of_mem there
  show (if ((fs.filter fun p => names.contains p.1).map Prod.fst).Nodup then _ else _) = _
  rw [known, all, if_pos distinct]

end Json.Decoder

open Json

@[simp] theorem decodeValues_ofTable (t : Table Json) : decodeValues (ofTable t) = some t := by
  have same : t.mapValues id = t := Table.ext (List.map_id' t.entries)
  have back := Decoder.table_mapValues (t := t) (d := Decoder.value) (f := id) fun _ _ => rfl
  rwa [same] at back

/-! ### Records -/

namespace Position

/-- Both coordinates are numbers. -/
def IsFinite (p : Position) : Prop := p.x.isFinite ∧ p.y.isFinite

instance (p : Position) : Decidable p.IsFinite := inferInstanceAs (Decidable (_ ∧ _))

theorem decode_toJson {p : Position} (finite : p.IsFinite) : decode p.toJson = some p := by
  have taken : Decoder.fields ["x", "y"] p.toJson = some _ := Decoder.fields_obj rfl (by decide)
  simp [decode, taken, Decoder.required, List.lookup_cons, Decoder.float_ofFloat finite.1,
    Decoder.float_ofFloat finite.2]

end Position

namespace Size

/-- Both extents are numbers. -/
def IsFinite (s : Size) : Prop := s.width.isFinite ∧ s.height.isFinite

instance (s : Size) : Decidable s.IsFinite := inferInstanceAs (Decidable (_ ∧ _))

theorem decode_toJson {s : Size} (finite : s.IsFinite) : decode s.toJson = some s := by
  have taken : Decoder.fields ["width", "height"] s.toJson = some _ :=
    Decoder.fields_obj rfl (by decide)
  simp [decode, taken, Decoder.required, List.lookup_cons, Decoder.float_ofFloat finite.1,
    Decoder.float_ofFloat finite.2]

end Size

@[simp] theorem Instant.decode_toJson (i : Instant) : decode i.toJson = some i := by
  have text : Decoder.string i.toJson = some i.text := rfl
  rw [decode, text, Option.bind_some, ofText?_text]

@[simp] theorem ElementKind.decode_name (k : ElementKind) :
    Decoder.oneOf names (Json.str k.name) = some k := by cases k <;> rfl

@[simp] theorem Dialect.decode_name (d : Dialect) : Decoder.oneOf names (Json.str d.name) = some d := by
  cases d <;> rfl

@[simp] theorem Direction.decode_name (d : Direction) : decode (Json.str d.name) = some d := by
  cases d <;> rfl

namespace Element

/-- Where the element is and how large it is are numbers. -/
def IsFinite (e : Element) : Prop := e.position.IsFinite ∧ e.size.IsFinite

instance (e : Element) : Decidable e.IsFinite := inferInstanceAs (Decidable (_ ∧ _))

/-- An element comes back from its JSON. -/
theorem decode_toJson {e : Element} (finite : e.IsFinite) : decode e.toJson = some e := by
  have taken : Decoder.fields fieldNames e.toJson = some _ := Decoder.fields_obj rfl (by decide)
  have position := Position.decode_toJson finite.1
  have size := Size.decode_toJson finite.2
  simp [decode, taken, Decoder.required, Decoder.defaulted, List.lookup_cons, position, size]

end Element

namespace Connection

/-- Every control point is given by numbers. -/
def IsFinite (c : Connection) : Prop := ∀ p ∈ c.points, p.IsFinite

instance (c : Connection) : Decidable c.IsFinite := inferInstanceAs (Decidable (∀ _ ∈ _, _))

/-- A connection comes back from its JSON. -/
theorem decode_toJson {c : Connection} (finite : c.IsFinite) : decode c.toJson = some c := by
  have taken : Decoder.fields fieldNames c.toJson = some _ := Decoder.fields_obj rfl (by decide)
  have points := Decoder.list_map fun p there => Position.decode_toJson (finite p there)
  simp [decode, taken, Decoder.required, Decoder.defaulted, List.lookup_cons, points]

end Connection

namespace Metadata

/-- The counts are unsigned words of 64 bits. -/
def CountsFit (m : Metadata) : Prop := m.elementCount ≤ maxWord ∧ m.connectionCount ≤ maxWord

instance (m : Metadata) : Decidable m.CountsFit := inferInstanceAs (Decidable (_ ∧ _))

theorem decode_toJson {m : Metadata} (fit : m.CountsFit) : decode m.toJson = some m := by
  have taken : Decoder.fields fieldNames m.toJson = some _ := Decoder.fields_obj rfl (by decide)
  have text (o : Option String) : Decoder.nullable Decoder.string (ofOption .str o) = some o :=
    Decoder.nullable_ofOption Decoder.string_str nofun
  have direction : Decoder.nullable Direction.decode (ofOption (fun d => .str d.name) m.direction) =
      some m.direction := Decoder.nullable_ofOption Direction.decode_name nofun
  simp [decode, taken, Decoder.required, Decoder.defaulted, List.lookup_cons, text, direction,
    Decoder.word_ofNat fit.1, Decoder.word_ofNat fit.2]

end Metadata

namespace Diagram

/-- Whatever is placed is placed by numbers. -/
structure IsFinite (d : Diagram) : Prop where
  elements : ∀ e ∈ d.elements.values, e.IsFinite
  connections : ∀ c ∈ d.connections.values, c.IsFinite

instance (d : Diagram) : Decidable d.IsFinite :=
  decidable_of_iff ((∀ e ∈ d.elements.values, e.IsFinite) ∧ ∀ c ∈ d.connections.values, c.IsFinite)
    ⟨fun h => ⟨h.1, h.2⟩, fun h => ⟨h.elements, h.connections⟩⟩

/-- A diagram comes back from its JSON; there is no need of the time of day, since its metadata is
written. -/
theorem decode_toJson {d : Diagram} (finite : d.IsFinite) (fit : d.metadata.CountsFit)
    (now : Instant) : decode now d.toJson = some d := by
  have taken : Decoder.fields ["diagram_type", "elements", "connections", "metadata"] d.toJson =
      some _ := Decoder.fields_obj rfl (by decide)
  have elements := Decoder.table_mapValues fun e there => Element.decode_toJson (finite.elements e there)
  have connections :=
    Decoder.table_mapValues fun c there => Connection.decode_toJson (finite.connections c there)
  have metadata := Metadata.decode_toJson fit
  simp [decode, taken, Decoder.required, Decoder.defaulted, List.lookup_cons, elements, connections,
    metadata]

end Diagram

/-- The exchange format is lossless, for diagrams whole and for their parts. Tables are equal with the
order of their keys, so that the order is kept too. -/
theorem exchange_lossless (now : Instant) :
    (∀ d : Diagram, d.IsFinite → d.metadata.CountsFit → Diagram.decode now d.toJson = some d) ∧
    (∀ e : Element, e.IsFinite → Element.decode e.toJson = some e) ∧
    ∀ c : Connection, c.IsFinite → Connection.decode c.toJson = some c :=
  ⟨fun _ finite fit => Diagram.decode_toJson finite fit now, fun _ => Element.decode_toJson,
    fun _ => Connection.decode_toJson⟩

/-- The end of a leap second, in a year before year 0. -/
def longAgo : Instant := ⟨⟨-44, 3, 15, 23, 59, 60, 250000000⟩, by decide⟩

/-- Keys that are not the ids, a negative zero, and properties that hold more than strings. -/
def assorted : Diagram where
  elements := .ofList [
    ("z", { Element.create longAgo "A" .container "Ä \"x\"" with
      position := ⟨⟨0x3FF8000000000000⟩, ⟨0x8000000000000000⟩⟩
      properties := .ofList [("n", .num (.int (-3))),
        ("list", .arr [.null, .obj [("b", .bool true), ("a", .num (.float ⟨0x3FF8000000000000⟩))]])] }),
    ("a", .node .epoch "B" "")]
  connections := .ofList [("c", { Connection.create longAgo "conn_1" "A" "gone" "dotted" with
    points := [.ofNat 1 2, .ofNat 3 4], style := .ofList [("stroke", .str "red")] })]
  dialect := .states
  metadata := { Metadata.create .epoch with
    title := some "", direction := some .left, elementCount := 7, updatedAt := longAgo }

theorem exchange_lossless_assorted : assorted.IsFinite ∧ assorted.metadata.CountsFit ∧
    assorted.elements.keys = ["z", "a"] ∧ Diagram.decode .epoch assorted.toJson = some assorted := by
  have finite : assorted.IsFinite := by decide +kernel
  have fit : assorted.metadata.CountsFit := by decide +kernel
  exact ⟨finite, fit, rfl, (exchange_lossless .epoch).1 assorted finite fit⟩

end DiagramText
