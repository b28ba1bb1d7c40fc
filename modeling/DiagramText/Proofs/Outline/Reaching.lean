import DiagramText.Proofs.Outline.Nesting

/-! What an outline shows of a table that need not be nested. The lists of the containers are arbitrary:
an element may stand in several of them, in its own, or below itself, and a list may name what is not
there. The outline shows just what is reached from the top, all of it once, and its lines are bracketed. -/
namespace DiagramText.Outline

variable {table : Table Element} {skip : Element → Bool} {visited keys : List String} {f : Forest}

/-! ### From the top -/

/-- A key that is reached from the top: no container lists it, or one that is reached itself does.
Elements that are skipped are not reached, and nothing is through them. -/
inductive Reached (table : Table Element) (skip : Element → Bool) : String → Prop where
  | top {key : String} {e : Element} (there : table.get? key = some e) (kept : skip e = false)
      (unlisted : ∀ box, ¬ Lists table box key) : Reached table skip key
  | inside {box key : String} {e : Element} (above : Reached table skip box) (listed : Lists table box key)
      (there : table.get? key = some e) (kept : skip e = false) : Reached table skip key

theorem Reached.exists_kept {key : String} (reached : Reached table skip key) :
    ∃ e, table.get? key = some e ∧ skip e = false := by
  cases reached with
  | top there kept _ => exact ⟨_, there, kept⟩
  | inside _ _ there kept => exact ⟨_, there, kept⟩

theorem mem_listings_values_iff {key : String} :
    key ∈ listings table table.values ↔ ∃ box, Lists table box key := by
  rw [mem_listings_iff]
  constructor
  · rintro ⟨e, there, box, listed⟩
    obtain ⟨⟨name, _⟩, entry, rfl⟩ := Table.mem_values_iff.1 there
    exact ⟨name, _, Table.get?_eq_some_iff.2 entry, box, listed⟩
  · rintro ⟨name, e, found, box, listed⟩
    exact ⟨e, Table.mem_values_of_get? found, box, listed⟩

/-- A walk starts from what no container lists. -/
theorem mem_rootKeys_iff_unlisted (keyed : ∀ p ∈ table.entries, p.1 = p.2.id) {key : String} :
    key ∈ rootKeys table skip ↔
      ∃ e, table.get? key = some e ∧ skip e = false ∧ ∀ box, ¬ Lists table box key := by
  simp only [rootKeys, List.mem_map, List.mem_filter, Prod.exists, exists_and_right, exists_eq_right,
    Bool.and_eq_true, Bool.not_eq_true', List.contains_iff_mem, ← Bool.not_eq_true, mem_nestedIds_iff keyed,
    mem_listings_values_iff, not_exists]
  refine exists_congr fun e => ?_
  rw [Table.get?_eq_some_iff]
  refine and_congr_right fun entry => ?_
  rw [← keyed _ entry]

/-! ### The search -/

/-- From keys that are reached a search finds only what is reached. -/
theorem reached_of_explores (keyed : ∀ p ∈ table.entries, p.1 = p.2.id)
    (explored : Explores table skip visited keys f)
    (start : ∀ key ∈ keys, ∀ e, table.get? key = some e → skip e = false → Reached table skip key) :
    ∀ e ∈ f.preorder, Reached table skip e.id := by
  induction explored with
  | done => exact List.forall_mem_nil _
  | absent _ _ ih => exact ih (List.forall_mem_cons.1 start).2
  | passed _ _ _ ih => exact ih (List.forall_mem_cons.1 start).2
  | leaf found kept _ _ _ ih =>
    rw [List.forall_mem_cons] at start
    rw [Forest.preorder, List.forall_mem_cons, id_of_get? keyed found]
    exact ⟨start.1 _ found kept, ih start.2⟩
  | group found kept _ box _ _ inner outer =>
    rw [List.forall_mem_cons] at start
    have own := start.1 _ found kept
    rw [Forest.preorder, List.forall_mem_cons, List.forall_mem_append, id_of_get? keyed found]
    refine ⟨own, inner fun key listed e there keeps => ?_, outer start.2⟩
    exact .inside own ⟨_, found, box, listed⟩ there keeps

/-- A search from the roots finds what is reached. -/
theorem mem_ids_iff_reached (keyed : ∀ p ∈ table.entries, p.1 = p.2.id)
    (explored : Explores table skip [] (rootKeys table skip) f) {key : String} :
    key ∈ f.ids ↔ Reached table skip key := by
  constructor
  · intro found
    obtain ⟨e, among, rfl⟩ := List.mem_map.1 found
    refine reached_of_explores keyed explored (fun key root e there kept => ?_) e among
    obtain ⟨_, _, _, unlisted⟩ := (mem_rootKeys_iff_unlisted keyed).1 root
    exact .top there kept unlisted
  · intro reached
    induction reached with
    | @top key e there kept unlisted =>
      have root := (mem_rootKeys_iff_unlisted keyed).2 ⟨e, there, kept, unlisted⟩
      simpa [id_of_get? keyed there] using reaches_of_explores explored key root e there kept
    | @inside name key e _ listed there kept above =>
      -- What is found under the name is the container that lists the key.
      obtain ⟨box, known, isBox, child⟩ := listed
      obtain ⟨x, among, same⟩ := List.mem_map.1 above
      obtain ⟨own, found⟩ := mem_of_explores explored x among
      have isIt : x = box := by
        rw [← id_of_get? keyed found, same, known] at found
        exact (Option.some.inj found).symm
      have next := closed_of_explores explored x among (isIt ▸ isBox) key (isIt ▸ child) e there kept
      simpa [id_of_get? keyed there] using next

/-! ### Brackets -/

/-- Lines at a depth that are bracketed: a line that opens a group is closed by one at the same depth, and
between them are bracketed lines one deeper. Containers are groups, and nothing else is. -/
inductive Bracketed : Nat → List Item → Prop where
  | nil {depth : Nat} : Bracketed depth []
  | leaf {depth : Nat} {e : Element} {rest : List Item} (other : e.kind ≠ .container)
      (after : Bracketed depth rest) : Bracketed depth (.leaf e depth :: rest)
  | group {depth : Nat} {e : Element} {inside rest : List Item} (box : e.kind = .container)
      (within : Bracketed (depth + 1) inside) (after : Bracketed depth rest) :
      Bracketed depth (.opens e depth :: (inside ++ .closes depth :: rest))

theorem bracketed_of_explores (explored : Explores table skip visited keys f) (depth : Nat) :
    Bracketed depth (f.items depth) := by
  induction explored generalizing depth with
  | done => exact .nil
  | absent _ _ ih => exact ih depth
  | passed _ _ _ ih => exact ih depth
  | leaf _ _ _ other _ ih => exact .leaf other (ih depth)
  | group _ _ _ box _ _ inner outer => exact .group box (inner (depth + 1)) (outer depth)

/-- No element takes more than two lines. -/
theorem Forest.length_items_le (f : Forest) (depth : Nat) :
    (f.items depth).length ≤ 2 * f.preorder.length := by
  induction f generalizing depth with
  | nil => exact Nat.le_refl _
  | leaf e rest ih =>
    have := ih depth
    simp only [items, preorder, List.length_cons]
    omega
  | group e inside rest inner outer =>
    have := inner (depth + 1)
    have := outer depth
    simp only [items, preorder, List.length_cons, List.length_append]
    omega

/-! ### The outline -/

/-- The elements that an outline shows, in the order of its lines. -/
def shown (table : Table Element) (skip : Element → Bool) : List Element :=
  (ofElements table skip).filterMap Item.element?

theorem shown_of_explores (explored : Explores table skip [] (rootKeys table skip) f) :
    shown table skip = f.preorder := by
  rw [shown, ofElements_of_explores explored, Forest.filterMap_items]

/-- Whatever the containers list, the outline shows what is reached and nothing else. -/
theorem mem_shown_iff (keyed : ∀ p ∈ table.entries, p.1 = p.2.id) {e : Element} :
    e ∈ shown table skip ↔ e ∈ table.values ∧ Reached table skip e.id := by
  obtain ⟨f, explored⟩ := exists_explores table skip [] (rootKeys table skip)
  rw [shown_of_explores explored, ← mem_ids_iff_reached keyed explored]
  constructor
  · intro among
    obtain ⟨_, found⟩ := mem_of_explores explored e among
    exact ⟨Table.mem_values_of_get? found, List.mem_map_of_mem among⟩
  · rintro ⟨there, found⟩
    obtain ⟨x, among, same⟩ := List.mem_map.1 found
    obtain ⟨key, known⟩ := mem_of_explores explored x among
    have own := get?_id_of_mem keyed there
    rw [← same, id_of_get? keyed known, known] at own
    exact Option.some.inj own ▸ among

theorem nodup_shown (table : Table Element) (skip : Element → Bool) :
    ((shown table skip).map (·.id)).Nodup := by
  obtain ⟨f, explored⟩ := exists_explores table skip [] (rootKeys table skip)
  rw [shown_of_explores explored]
  exact (nodup_of_explores explored).1

theorem bracketed_ofElements (table : Table Element) (skip : Element → Bool) :
    Bracketed 1 (ofElements table skip) := by
  obtain ⟨f, explored⟩ := exists_explores table skip [] (rootKeys table skip)
  rw [ofElements_of_explores explored]
  exact bracketed_of_explores explored 1

/-- The walk comes to an end after two lines an element at most. -/
theorem length_ofElements_le (table : Table Element) (skip : Element → Bool) :
    (ofElements table skip).length ≤ 2 * table.size := by
  obtain ⟨f, explored⟩ := exists_explores table skip [] (rootKeys table skip)
  have distinct : f.preorder.Nodup := List.Nodup.of_map _ (nodup_of_explores explored).1
  have among : f.preorder ⊆ table.values := by
    intro e there
    obtain ⟨_, found⟩ := mem_of_explores explored e there
    exact Table.mem_values_of_get? found
  have fewer : f.preorder.length ≤ table.size := by
    have := (distinct.subperm among).length_le
    rwa [Table.values, List.length_map] at this
  rw [ofElements_of_explores explored]
  have := f.length_items_le 1
  omega

/-- An outline of arbitrary lists: it shows what is reached from the top and nothing else, all of it once,
on lines that are bracketed and no more than two an element. -/
structure Faithful (table : Table Element) (skip : Element → Bool) : Prop where
  shows : ∀ e, e ∈ shown table skip ↔ e ∈ table.values ∧ Reached table skip e.id
  once : ((shown table skip).map (·.id)).Nodup
  bracketed : Bracketed 1 (ofElements table skip)
  short : (ofElements table skip).length ≤ 2 * table.size

theorem faithful (keyed : ∀ p ∈ table.entries, p.1 = p.2.id) (skip : Element → Bool) : Faithful table skip where
  shows _ := mem_shown_iff keyed
  once := nodup_shown table skip
  bracketed := bracketed_ofElements table skip
  short := length_ofElements_le table skip

/-! ### All of a table -/

/-- Everything that is not skipped is shown once, if and only if all of it is reached. -/
theorem shown_perm_iff (keyed : ∀ p ∈ table.entries, p.1 = p.2.id) :
    (shown table skip).Perm (table.values.filter fun e => !skip e) ↔
      ∀ e ∈ table.values, skip e = false → Reached table skip e.id := by
  constructor
  · intro all e there kept
    have among : e ∈ table.values.filter fun e => !skip e := List.mem_filter.2 ⟨there, by rw [kept]; rfl⟩
    exact ((mem_shown_iff keyed).1 (all.mem_iff.2 among)).2
  · intro all
    have ids : table.values.map (·.id) = table.keys := by
      rw [Table.values, Table.keys, List.map_map]
      exact List.map_congr_left fun p there => (keyed p there).symm
    have distinct : table.values.Nodup := List.Nodup.of_map (·.id) (ids ▸ table.nodup)
    refine (List.perm_ext_iff_of_nodup (List.Nodup.of_map _ (nodup_shown table skip)) (distinct.filter _)).2
      fun e => ?_
    rw [mem_shown_iff keyed, List.mem_filter]
    refine and_congr_right fun there => ?_
    constructor
    · intro reached
      obtain ⟨x, found, kept⟩ := reached.exists_kept
      obtain rfl := Option.some.inj ((get?_id_of_mem keyed there).symm.trans found)
      rw [kept]
      rfl
    · exact fun kept => all e there (by simpa using kept)

/-- Where nothing lies below itself and no container is skipped, everything else is reached. -/
theorem reached_of_acyclic (keyed : ∀ p ∈ table.entries, p.1 = p.2.id)
    (acyclic : ∀ id, ¬ Relation.TransGen (Lists table) id id)
    (boxes : ∀ e ∈ table.values, e.kind = .container → skip e = false) {e : Element}
    (there : e ∈ table.values) (kept : skip e = false) : Reached table skip e.id := by
  obtain ⟨f, explored⟩ := exists_explores table skip [] (rootKeys table skip)
  exact (mem_ids_iff_reached keyed explored).1 (mem_ids_of_explores keyed acyclic boxes explored there kept)

end DiagramText.Outline
