import DiagramText.Diagram.Graph

/-! Graphs that grow. Readers only ever add an element under a free id, change an element in its
place, or connect two elements that are there; whatever such a run leads to is stored under its own
ids, has no loose ends, numbers its connections in order, and starts with what was there before. -/
namespace DiagramText

theorem connectionId_injective {m n : Nat} (h : connectionId m = connectionId n) : m = n := by
  have same : (connectionId m).toList = (connectionId n).toList := congrArg _ h
  simp only [connectionId, String.toList_append, List.append_cancel_left_eq,
    Nat.toString_eq_ofList_toDigits, String.toList_ofList] at same
  rw [← Nat.ofDigitChars_ten_toDigits (n := m), same, Nat.ofDigitChars_ten_toDigits]

namespace Graph

/-- Everything is stored under its own id. -/
structure Keyed (g : Graph) : Prop where
  elements : ∀ p ∈ g.elements.entries, p.1 = p.2.id
  connections : ∀ p ∈ g.connections.entries, p.1 = p.2.id

/-- No connection misses an end. -/
def Closed (g : Graph) : Prop := ∀ c ∈ g.connections.values, g.joins c

instance (g : Graph) : Decidable g.Closed :=
  inferInstanceAs (Decidable (∀ c ∈ g.connections.values, g.joins c))

/-- The connections are numbered from one on, in the order in which they came. -/
def Numbered (g : Graph) : Prop :=
  g.connections.keys = (List.range' 1 g.connections.size).map connectionId

/-- What a reader makes of a graph, one addition or change after the other. -/
inductive Growth (g : Graph) : Graph → Prop where
  | same : Growth g g
  | element (e : Element) : Growth g h → h.hasElement e.id = false →
      Growth g { h with elements := h.elements.insert e.id e }
  | change (id : String) (f : Element → Element) : Growth g h → (∀ e, (f e).id = e.id) →
      Growth g (h.modifyElement id f)
  | link (now : Instant) (source target kind label : String) (properties : List (String × Json)) :
      Growth g h → h.hasElement source → h.hasElement target →
      Growth g (h.connect now source target kind label properties)

variable {g h k : Graph}

theorem Growth.trans (first : Growth g h) (second : Growth h k) : Growth g k := by
  induction second with
  | same => exact first
  | element e _ free ih => exact .element e ih free
  | change id f _ keeps ih => exact .change id f ih keeps
  | link now s t kind label ps _ hs ht ih => exact .link now s t kind label ps ih hs ht

/-! ### The operations of readers -/

theorem growth_ensure (g : Graph) (id : String) (make : Nat → Element)
    (named : ∀ n, (make n).id = id) : Growth g (g.ensure id make) := by
  unfold ensure
  split
  · exact .same
  · next free =>
    have : g.hasElement (make g.elements.size).id = false := by simpa [named] using free
    simpa only [named] using Growth.element _ .same this

theorem growth_addElement (g : Graph) (e : Element) : Growth g (g.addElement e) := by
  unfold addElement
  split
  · exact .same
  · next free => exact .element e .same (by simpa using free)

theorem append_id (e : Element) (key : String) (v : Json) : (e.append key v).id = e.id := by
  unfold Element.append
  split <;> rfl

theorem growth_appendTo (g : Graph) (id key : String) (v : Json) : Growth g (g.appendTo id key v) :=
  .change id _ .same fun e => append_id e key v

/-! ### What is there stays there -/

theorem hasElement_iff {id : String} : g.hasElement id ↔ id ∈ g.elements.keys := Table.contains_iff

theorem keys_modifyElement (id : String) (f : Element → Element) :
    (g.modifyElement id f).elements.keys = g.elements.keys := Table.keys_modify ..

theorem Growth.elements_prefix (grown : Growth g h) : g.elements.keys <+: h.elements.keys := by
  induction grown with
  | same => exact List.prefix_refl _
  | element e _ _ ih =>
    rw [Table.keys_insert]
    split
    · exact ih
    · exact ih.trans (List.prefix_append ..)
  | change id f _ _ ih => rwa [keys_modifyElement]
  | link _ _ _ _ _ _ _ _ _ ih => exact ih

theorem Growth.hasElement (grown : Growth g h) {id : String} (there : g.hasElement id) :
    h.hasElement id :=
  hasElement_iff.2 (grown.elements_prefix.subset (hasElement_iff.1 there))

theorem hasElement_ensure (g : Graph) (id : String) (make : Nat → Element) :
    (g.ensure id make).hasElement id := by
  unfold ensure
  split
  · assumption
  · exact hasElement_iff.2 (by rw [Table.keys_insert]; split <;> simp_all)

theorem hasElement_modifyElement (g : Graph) (id other : String) (f : Element → Element) :
    (g.modifyElement id f).hasElement other ↔ g.hasElement other := by
  rw [hasElement_iff, keys_modifyElement, hasElement_iff]

/-- An element that is put in brings its id and no other. -/
theorem mem_keys_insert {t : Table Element} {id other : String} {e : Element} :
    other ∈ (t.insert id e).keys ↔ other ∈ t.keys ∨ other = id := by
  rw [Table.keys_insert]
  split
  · next there => exact ⟨.inl, fun h => h.elim (fun known => known) fun same => same ▸ there⟩
  · rw [List.mem_append, List.mem_singleton]

theorem hasElement_ensure_iff {id other : String} {make : Nat → Element} :
    (g.ensure id make).hasElement other ↔ g.hasElement other ∨ other = id := by
  unfold ensure
  split
  · next there => exact ⟨.inl, fun h => h.elim (fun known => known) fun same => same ▸ there⟩
  · rw [hasElement_iff, mem_keys_insert, hasElement_iff]

theorem hasElement_addElement_iff {e : Element} {other : String} :
    (g.addElement e).hasElement other ↔ g.hasElement other ∨ other = e.id := by
  unfold addElement
  split
  · next there => exact ⟨.inl, fun h => h.elim (fun known => known) fun same => same ▸ there⟩
  · rw [hasElement_iff, mem_keys_insert, hasElement_iff]

/-! ### What growth preserves -/

theorem Growth.keyed (grown : Growth g h) (keyed : Keyed g) : Keyed h := by
  induction grown with
  | same => exact keyed
  | element e _ _ ih =>
    refine ⟨fun p hp => ?_, ih.connections⟩
    rcases Table.mem_put hp with rfl | hp
    · rfl
    · exact ih.elements p hp
  | change id f _ keeps ih =>
    refine ⟨fun p hp => ?_, ih.connections⟩
    obtain ⟨⟨l, e⟩, he, rfl⟩ := List.mem_map.1 hp
    have own : l = e.id := ih.elements _ he
    by_cases hl : l = id
    · simp only [hl, if_true, keeps]
      exact hl ▸ own
    · simpa only [hl, if_false] using own
  | link now s t kind label ps _ _ _ ih =>
    refine ⟨ih.elements, fun p hp => ?_⟩
    rcases Table.mem_put hp with rfl | hp
    · rfl
    · exact ih.connections p hp

theorem joins_mono (there : ∀ id, g.hasElement id → h.hasElement id) {c : Connection}
    (joined : g.joins c) : h.joins c := by
  simp only [joins, Bool.and_eq_true] at joined ⊢
  exact ⟨there _ joined.1, there _ joined.2⟩

theorem Growth.closed (grown : Growth g h) (closed : Closed g) : Closed h := by
  induction grown with
  | same => exact closed
  | @element h e before free ih =>
    exact fun c hc => joins_mono (fun _ => (Growth.element e .same free).hasElement) (ih c hc)
  | @change h id f before keeps ih =>
    exact fun c hc => joins_mono (fun _ => (Growth.change id f .same keeps).hasElement) (ih c hc)
  | link now s t kind label ps _ hs ht ih =>
    intro c hc
    rcases Table.mem_values_insert hc with rfl | hc
    · exact Bool.and_eq_true_iff.2 ⟨hs, ht⟩
    · exact ih c hc

/-! ### Numbers -/

theorem freeIdFrom_of_free {t : Table Connection} {n : Nat}
    (free : t.contains (connectionId n) = false) (fuel : Nat) :
    freeIdFrom t fuel n = connectionId n := by
  cases fuel <;> simp [freeIdFrom, free]

/-- After `n` numbered connections the next number is free. -/
theorem Numbered.next (numbered : Numbered g) :
    nextConnectionId g.connections = connectionId (g.connections.size + 1) ∧
      connectionId (g.connections.size + 1) ∉ g.connections.keys := by
  have free : connectionId (g.connections.size + 1) ∉ g.connections.keys := by
    rw [numbered]
    intro taken
    obtain ⟨i, hi, same⟩ := List.mem_map.1 taken
    have := connectionId_injective same
    simp only [List.mem_range'_1] at hi
    omega
  exact ⟨freeIdFrom_of_free (Table.contains_eq_false_iff.2 free) _, free⟩

/-- The connection that is made under an id. -/
def linkAs (now : Instant) (id source target kind label : String)
    (properties : List (String × Json)) : Connection :=
  { Connection.create now id source target kind with
    label := label, properties := Table.ofList properties }

/-- A connection under a free number goes to the end. -/
theorem Numbered.entries_connect (numbered : Numbered g) (now : Instant)
    (source target kind label : String) (properties : List (String × Json)) :
    (g.connect now source target kind label properties).connections.entries =
      g.connections.entries ++ [(connectionId (g.connections.size + 1),
        linkAs now (connectionId (g.connections.size + 1)) source target kind label properties)] := by
  obtain ⟨next, free⟩ := numbered.next
  simp only [connect, next]
  exact Table.put_of_not_mem free _

theorem Numbered.connect (numbered : Numbered g) (now : Instant) (source target kind label : String)
    (properties : List (String × Json)) :
    Numbered (g.connect now source target kind label properties) := by
  have added := numbered.entries_connect now source target kind label properties
  unfold Numbered Table.keys Table.size at numbered ⊢
  simp [added, List.range'_concat, numbered, Table.size, Nat.add_comm]

theorem Growth.numbered (grown : Growth g h) (numbered : Numbered g) : Numbered h := by
  induction grown with
  | same => exact numbered
  | element _ _ _ ih => exact ih
  | change _ _ _ _ ih => exact ih
  | link now s t kind label ps _ _ _ ih => exact ih.connect now s t kind label ps

theorem Growth.connections_prefix (grown : Growth g h) (numbered : Numbered g) :
    g.connections.entries <+: h.connections.entries := by
  induction grown with
  | same => exact List.prefix_refl _
  | element _ _ _ ih => exact ih
  | change _ _ _ _ ih => exact ih
  | link now s t kind label ps before _ _ ih =>
    have added := (before.numbered numbered).entries_connect now s t kind label ps
    exact added ▸ ih.trans (List.prefix_append ..)

theorem keyed_empty : Keyed empty := ⟨by simp [empty], by simp [empty]⟩
theorem closed_empty : Closed empty := by simp [Closed, empty, Table.values]
theorem numbered_empty : Numbered empty := rfl

end Graph
end DiagramText
